import TunnelMap.Proofs.View.Exact

/-! Gestures. The pointer may hold a node, and it may hold the ground. Each grip starts with a press
of its own kind and lasts until something ends it, and neither takes notice of the other: a press
on the ground leaves a held node held. So a run in which a press comes on top of another, as a
second button makes it, can end with both in the pointer's hold. -/

namespace TunnelMap

variable {R S : Type} [Scalar R] [Engine S] [Precision R S]

namespace Operation

omit [Scalar R] [Engine S] [Precision R S] in
/-- The operations that make the pointer let go of a node. -/
def DropsNode : Operation R S → Prop
  | .lift _ | .exit | .replace _ => True
  | _ => False

omit [Scalar R] [Engine S] [Precision R S] in
/-- The operations that make the pointer let go of the ground. -/
def DropsGround : Operation R S → Prop
  | .lift _ | .exit => True
  | _ => False

omit [Scalar R] [Engine S] [Precision R S] in
def Presses : Operation R S → Prop
  | .press _ => True
  | _ => False

omit [Scalar R] [Engine S] [Precision R S] in
theorem DropsGround.dropsNode {op : Operation R S} (h : op.DropsGround) : op.DropsNode := by
  cases op with
  | lift p => trivial
  | exit => trivial
  | _ => exact h.elim

end Operation

namespace View

omit [Engine S] [Precision R S] in
/-- Whether an operation is a press on a node. -/
def TakesNode (v : View R S) : Operation R S → Prop
  | .press p => (v.nodeAt? p).isSome
  | _ => False

omit [Engine S] [Precision R S] in
/-- Whether an operation is a press on the ground. -/
def TakesGround (v : View R S) : Operation R S → Prop
  | .press p => v.nodeAt? p = none
  | _ => False

omit [Engine S] [Precision R S] in
theorem press_node {v : View R S} {p : Point R} {i : NodeIdx} (h : v.nodeAt? p = some i) :
    v.press p = { v with
      moved := false, drag := ⟨true, some i, p, v.layout.positions[i]?.getD .origin⟩ } := by
  rw [press, h]

omit [Engine S] [Precision R S] in
theorem press_ground {v : View R S} {p : Point R} (h : v.nodeAt? p = none) :
    v.press p = { v with moved := false, pan := ⟨true, p, ⟨v.camera.x, v.camera.y⟩⟩ } := by
  rw [press, h]

omit [Engine S] [Precision R S] in
/-- What the pointer holds after an operation. -/
def held (v : View R S) : Operation R S → Drag R × Pan R
  | .press p =>
    match v.nodeAt? p with
    | some i => (⟨true, some i, p, v.layout.positions[i]?.getD .origin⟩, v.pan)
    | none => (v.drag, ⟨true, p, ⟨v.camera.x, v.camera.y⟩⟩)
  | .lift _ | .exit => (.idle, { v.pan with active := false })
  | .replace _ => (.idle, v.pan)
  | _ => (v.drag, v.pan)

omit [Engine S] in
theorem point_held_eq (v : View R S) (p : Point R) :
    (v.point p).value.drag = v.drag ∧ (v.point p).value.pan = v.pan := by
  cases hd : v.drag.active with
  | true =>
    obtain ⟨moved, layout, hv, -⟩ := v.dragTo_eq p
    rw [point_held hd, hv]
    exact ⟨rfl, rfl⟩
  | false =>
    obtain ⟨camera, moved, hp⟩ := v.panTo_eq p
    rw [point_unheld hd, hp]
    exact ⟨rfl, rfl⟩

theorem perform?_held {v : View R S} {op : Operation R S} {o : Outcome (View R S)}
    (h : v.perform? op = some o) : (o.value.drag, o.value.pan) = v.held op := by
  obtain ⟨sizes, rfl⟩ := perform?_after h
  cases op with
  | press p =>
    cases hat : v.nodeAt? p with
    | some i => simp only [after, press_node hat, held, hat]
    | none => simp only [after, press_ground hat, held, hat]
  | point p =>
    obtain ⟨hd, hp⟩ := v.point_held_eq p
    exact Prod.ext hd hp
  | _ => rfl

/-- A node is held after an operation that takes one, or still. -/
theorem perform?_drag {v : View R S} {op : Operation R S} {o : Outcome (View R S)}
    (h : v.perform? op = some o) :
    o.value.drag.active ↔ v.TakesNode op ∨ v.drag.active ∧ ¬ op.DropsNode := by
  obtain ⟨hdrag, -⟩ := Prod.ext_iff.mp (perform?_held h)
  rw [show o.value.drag = (v.held op).1 from hdrag]
  cases op with
  | press p => cases hat : v.nodeAt? p <;> simp [held, TakesNode, Operation.DropsNode, hat]
  | _ => simp [held, TakesNode, Operation.DropsNode]

/-- The ground is held after an operation that takes it, or still. -/
theorem perform?_pan {v : View R S} {op : Operation R S} {o : Outcome (View R S)}
    (h : v.perform? op = some o) :
    o.value.pan.active ↔ v.TakesGround op ∨ v.pan.active ∧ ¬ op.DropsGround := by
  obtain ⟨-, hpan⟩ := Prod.ext_iff.mp (perform?_held h)
  rw [show o.value.pan = (v.held op).2 from hpan]
  cases op with
  | press p => cases hat : v.nodeAt? p <;> simp [held, TakesGround, Operation.DropsGround, hat]
  | _ => simp [held, TakesGround, Operation.DropsGround]

omit [Scalar R] [Engine S] [Precision R S] in
theorem isPressed_iff (v : View R S) : v.isPressed ↔ v.drag.active ∨ v.pan.active := by
  rw [isPressed, Bool.or_eq_true]

/-- Of all but a press, a node is held after it just if one was held and is not dropped. -/
theorem perform?_drag_of_not_presses {v : View R S} {op : Operation R S} {o : Outcome (View R S)}
    (hop : ¬ op.Presses) (h : v.perform? op = some o) :
    o.value.drag.active ↔ v.drag.active ∧ ¬ op.DropsNode := by
  rw [perform?_drag h]
  cases op with
  | press p => exact absurd trivial hop
  | _ => simp [TakesNode]

/-- Of all but a press, the ground is held after it just if it was held and is not dropped. -/
theorem perform?_pan_of_not_presses {v : View R S} {op : Operation R S} {o : Outcome (View R S)}
    (hop : ¬ op.Presses) (h : v.perform? op = some o) :
    o.value.pan.active ↔ v.pan.active ∧ ¬ op.DropsGround := by
  rw [perform?_pan h]
  cases op with
  | press p => exact absurd trivial hop
  | _ => simp [TakesGround]

/-- What is held after an operation other than a press was held before. -/
theorem isPressed_of_perform? {v : View R S} {op : Operation R S} {o : Outcome (View R S)}
    (hop : ¬ op.Presses) (h : v.perform? op = some o) (ho : o.value.isPressed) :
    v.isPressed ∧ ¬ op.DropsGround := by
  rw [isPressed_iff, perform?_drag_of_not_presses hop h, perform?_pan_of_not_presses hop h] at ho
  rw [isPressed_iff]
  rcases ho with ⟨hheld, hkeep⟩ | ⟨hheld, hkeep⟩
  · exact ⟨.inl hheld, fun hdrops => hkeep hdrops.dropsNode⟩
  · exact ⟨.inr hheld, hkeep⟩

end View

namespace Outcome

/-- Among operations in turn there is one that starts something, and none after it ends it. -/
def Since (o : Outcome (View R S)) (starts : View R S → Operation R S → Prop)
    (ends : Operation R S → Prop) (ops : List (Operation R S)) : Prop :=
  ∃ before op after m, ops = before ++ op :: after ∧ o.run? before = some m ∧ starts m.value op ∧
    ∀ later ∈ after, ¬ ends later

/-- Every press comes when the pointer holds nothing. -/
def Orderly (o : Outcome (View R S)) (ops : List (Operation R S)) : Prop :=
  ∀ before p after m, ops = before ++ .press p :: after → o.run? before = some m →
    m.value.isPressed = false

theorem not_since_nil (o : Outcome (View R S)) (starts : View R S → Operation R S → Prop)
    (ends : Operation R S → Prop) : ¬ o.Since starts ends [] := by
  rintro ⟨before, op, after, -, hops, -⟩
  simp at hops

/-- What has been going on since some operation either starts with the last one or survives it. -/
theorem since_concat {o m : Outcome (View R S)} {starts : View R S → Operation R S → Prop}
    {ends : Operation R S → Prop} {ops : List (Operation R S)} (hm : o.run? ops = some m)
    (op : Operation R S) : o.Since starts ends (ops ++ [op]) ↔
      starts m.value op ∨ o.Since starts ends ops ∧ ¬ ends op := by
  constructor
  · rintro ⟨before, x, after, m', hops, hm', hstarts, hafter⟩
    rcases List.eq_nil_or_concat after with rfl | ⟨after, y, rfl⟩
    · obtain ⟨rfl, hlast⟩ := List.append_inj' hops rfl
      obtain rfl : op = x := by simpa using hlast
      obtain rfl : m = m' := Option.some.inj (hm.symm.trans hm')
      exact .inl hstarts
    · rw [List.concat_eq_append] at hops hafter
      have hops' : ops ++ [op] = (before ++ x :: after) ++ [y] := by simpa using hops
      obtain ⟨rfl, hlast⟩ := List.append_inj' hops' rfl
      obtain rfl : op = y := by simpa using hlast
      refine .inr ⟨⟨before, x, after, m', rfl, hm', hstarts, fun later hl => ?_⟩, ?_⟩
      · exact hafter later (List.mem_append_left _ hl)
      · exact hafter op (List.mem_append_right _ List.mem_cons_self)
  · rintro (hstarts | ⟨⟨before, x, after, m', rfl, hm', hstarts, hafter⟩, hends⟩)
    · exact ⟨ops, op, [], m, rfl, hm, hstarts, nofun⟩
    · refine ⟨before, x, after ++ [op], m', by simp, hm', hstarts, ?_⟩
      simpa [or_imp, forall_and] using ⟨hafter, hends⟩

/-- What only certain operations start and only certain operations end holds at the end of a run if
it has been going on since some operation. -/
theorem run?_since {P : View R S → Prop} {starts : View R S → Operation R S → Prop}
    {ends : Operation R S → Prop}
    (step : ∀ {v : View R S} {op : Operation R S} {next : Outcome (View R S)},
      v.perform? op = some next → (P next.value ↔ starts v op ∨ P v ∧ ¬ ends op))
    {o r : Outcome (View R S)} {ops : List (Operation R S)} (ho : ¬ P o.value)
    (h : o.run? ops = some r) : P r.value ↔ o.Since starts ends ops := by
  induction ops using List.reverseRecOn generalizing r with
  | nil =>
    obtain rfl : o = r := by simpa using h
    exact iff_of_false ho (o.not_since_nil starts ends)
  | append_singleton ops op ih =>
    obtain ⟨m, hm, hr⟩ := run?_concat.mp h
    obtain ⟨next, hnext, rfl⟩ := perform?_eq_some.mp hr
    have hstep := step hnext
    rwa [ih hm, ← since_concat hm op] at hstep

/-- What no operation starts and only certain operations end holds at the end of a run just if it held
before and none of these is among the operations. -/
theorem run?_lasts {P : View R S → Prop} {ends : Operation R S → Prop} {ops : List (Operation R S)}
    (step : ∀ {v : View R S} {op : Operation R S} {next : Outcome (View R S)}, op ∈ ops →
      v.perform? op = some next → (P next.value ↔ P v ∧ ¬ ends op)) {o r : Outcome (View R S)}
    (h : o.run? ops = some r) : P r.value ↔ P o.value ∧ ∀ op ∈ ops, ¬ ends op := by
  induction ops generalizing o with
  | nil =>
    obtain rfl : o = r := by simpa using h
    simp
  | cons op ops ih =>
    obtain ⟨m, hm, hr⟩ := run?_cons.mp h
    obtain ⟨next, hnext, rfl⟩ := perform?_eq_some.mp hm
    have hstep := step List.mem_cons_self hnext
    rw [ih (fun hmem => step (List.mem_cons_of_mem _ hmem)) hr, hstep, List.forall_mem_cons, and_assoc]

theorem Orderly.of_concat {o : Outcome (View R S)} {op : Operation R S}
    {ops : List (Operation R S)} (h : o.Orderly (ops ++ [op])) : o.Orderly ops := by
  rintro before p after m rfl
  exact h before p (after ++ [op]) m (by simp)

/-- A run with one press, at its start, is orderly. -/
theorem orderly_press_cons {o : Outcome (View R S)} (ho : o.value.isPressed = false) (p : Point R)
    {ops : List (Operation R S)} (hops : ∀ op ∈ ops, ¬ op.Presses) : o.Orderly (.press p :: ops) := by
  intro before q after m hsplit hm
  cases before with
  | nil =>
    obtain rfl : o = m := by simpa using hm
    exact ho
  | cons x before =>
    obtain ⟨-, rfl⟩ := List.cons.inj hsplit
    exact absurd trivial (hops (.press q) (by simp))

end Outcome

namespace View

/-- An operation that is no press on top of another leaves one grip at most. -/
theorem perform?_lone_grip {v : View R S} {op : Operation R S} {o : Outcome (View R S)}
    (h : v.perform? op = some o) (hv : ¬ (v.drag.active ∧ v.pan.active))
    (hop : ∀ p, op = .press p → v.isPressed = false) :
    ¬ (o.value.drag.active ∧ o.value.pan.active) := by
  rw [perform?_drag h, perform?_pan h]
  -- A press takes one of the two and finds neither held; nothing else takes any.
  cases op with
  | press p =>
    have hfree : v.drag.active = false ∧ v.pan.active = false := by
      simpa only [isPressed, Bool.or_eq_false_iff] using hop p rfl
    cases hat : v.nodeAt? p <;> simp [TakesNode, TakesGround, hfree, hat]
  | _ =>
    rintro ⟨hdrag, hpan⟩
    exact hv ⟨(hdrag.resolve_left id).1, (hpan.resolve_left id).1⟩

theorem orderly_lone_grip {o r : Outcome (View R S)} {ops : List (Operation R S)}
    (ho : ¬ (o.value.drag.active ∧ o.value.pan.active)) (hops : o.Orderly ops)
    (h : o.run? ops = some r) : ¬ (r.value.drag.active ∧ r.value.pan.active) := by
  induction ops using List.reverseRecOn generalizing r with
  | nil =>
    obtain rfl : o = r := by simpa using h
    exact ho
  | append_singleton ops op ih =>
    obtain ⟨m, hm, hr⟩ := Outcome.run?_concat.mp h
    obtain ⟨next, hnext, rfl⟩ := Outcome.perform?_eq_some.mp hr
    have hpress (p : Point R) (hp : op = .press p) : m.value.isPressed = false :=
      hops ops p [] m (by rw [hp]) hm
    change ¬ (next.value.drag.active ∧ next.value.pan.active)
    exact perform?_lone_grip hnext (ih hops.of_concat hm) hpress

/-- In every run from a start, the pointer holds a node just since a press on one, and the ground
just since a press there; not both, provided that every press comes when it holds nothing. -/
theorem gestures_since {g : Graph} {tuning : Tuning R} {sizing : Sizing R} {width height : R}
    {o r : Outcome (View R S)} {ops : List (Operation R S)}
    (hs : start? g tuning sizing width height = some o) (h : o.run? ops = some r) :
    (r.value.drag.active ↔ o.Since TakesNode Operation.DropsNode ops) ∧
      (r.value.pan.active ↔ o.Since TakesGround Operation.DropsGround ops) ∧
      (o.Orderly ops → ¬ (r.value.drag.active ∧ r.value.pan.active)) := by
  obtain ⟨sizes, -, hv, -⟩ := start?_eq_some hs
  have hdrag : ¬ o.value.drag.active := by simp [hv]
  have hpan : ¬ o.value.pan.active := by simp [hv]
  exact ⟨Outcome.run?_since (P := fun v => v.drag.active) perform?_drag hdrag h,
    Outcome.run?_since (P := fun v => v.pan.active) perform?_pan hpan h,
    fun hops => orderly_lone_grip (fun hboth => hdrag hboth.1) hops h⟩

/-- A node is taken and let go, then the ground is taken. -/
theorem gestures_since_in_turn : ∃ (n : Node) (o r : Outcome (View ℝ ℝ)) (p q : Point ℝ),
    start? (.ofParts [n] []) .standard .standard 0 0 = some o ∧
      o.run? [.press p, .lift p, .press q] = some r ∧
      o.Orderly [.press p, .lift p, .press q] ∧ r.value.pan.active ∧ ¬ r.value.drag.active := by
  obtain ⟨o, p, q, ho, hp, hq⟩ := exists_start (S := ℝ) ⟨⟨"a"⟩, .interface, {}⟩
  obtain ⟨sizes, -, hv, -⟩ := start?_eq_some ho
  obtain ⟨r, hr⟩ : ∃ r, o.run? [.press p, .lift p, .press q] = some r := ⟨_, rfl⟩
  obtain ⟨m, hm⟩ : ∃ m, o.run? [.press p, .lift p] = some m := ⟨_, rfl⟩
  have hmv : m.value = (o.value.press p).release := by
    obtain rfl := Option.some.inj hm
    rfl
  have hground : m.value.nodeAt? q = none := by
    rw [hmv, press_node hp]
    exact hq
  have horderly : o.Orderly [.press p, .lift p, .press q] := by
    rintro (_ | ⟨x, _ | ⟨y, _ | ⟨z, before⟩⟩⟩) p' after m' hops hm'
    · obtain rfl : o = m' := by simpa using hm'
      simp [isPressed, hv]
    · simp at hops
    · simp only [List.cons_append, List.nil_append, List.cons.injEq] at hops
      obtain ⟨rfl, rfl, -⟩ := hops
      obtain rfl := Option.some.inj (hm.symm.trans hm')
      rw [hmv]
      rfl
    · simp at hops
  obtain ⟨-, hpan, hlone⟩ := gestures_since ho hr
  have hactive : r.value.pan.active :=
    hpan.mpr ⟨[.press p, .lift p], .press q, [], m, rfl, hm, hground, nofun⟩
  exact ⟨_, o, r, p, q, ho, hr, horderly, hactive, fun hdrag => hlone horderly ⟨hdrag, hactive⟩⟩

/-- A press on a node and then one on the ground leave both in the pointer's hold. -/
theorem node_and_ground_held : ∃ v : View ℝ ℝ, v.Reachable ∧ v.drag.active ∧ v.pan.active := by
  let e : NodeEntry := ⟨⟨"a"⟩, .interface, {}⟩
  obtain ⟨o, p, q, ho, hp, hq⟩ := exists_start (S := ℝ) e.node
  have hlone : Graph.OfSnapshot (.ofParts [e.node] []) := ⟨⟨[e], []⟩, rfl⟩
  have hop (w : Point ℝ) : (.press w : Operation ℝ ℝ).FromSnapshot := trivial
  have hfirst : (o.value.press p).Reachable := .perform (.start hlone ho) (hop p) rfl
  have hground : (o.value.press p).nodeAt? q = none := by
    rw [press_node hp]
    exact hq
  refine ⟨(o.value.press p).press q, .perform hfirst (hop q) rfl, ?_, ?_⟩
  · rw [press_ground hground, press_node hp]
  · rw [press_ground hground]

end View

end TunnelMap
