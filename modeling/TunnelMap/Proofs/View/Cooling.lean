import TunnelMap.Layout.Repulsion
import TunnelMap.Proofs.Layout.Frame
import TunnelMap.Proofs.View.Run

/-! Which tuning a layout obeys. Its links and charges are those of the tuning in force, but it
cools, rests and damps as the tuning says that it was laid out with: a retuning does not reach
these numbers. Only another graph, for which there is another layout, brings the tuning in
force to bear on them. -/

namespace TunnelMap

variable {R S : Type} [Scalar R] [Engine S] [Precision R S]

/-- How a layout loses its heat, when it rests, and how its bodies slow down. -/
structure Cooling (R S : Type) where
  decay : R
  rest : R
  damping : S
  deriving DecidableEq, Repr

omit [Scalar R] [Engine S] in
def Tuning.cooling (t : Tuning R) : Cooling R S :=
  ⟨t.alphaDecay, t.alphaMin, narrow t.velocityRetention⟩

namespace Layout

omit [Scalar R] [Engine S] [Precision R S] in
def cooling (l : Layout R S) : Cooling R S := ⟨l.alphaDecay, l.alphaMin, l.damping⟩

@[simp] theorem cooling_ofGraph (g : Graph) (t : Tuning R) :
    (ofGraph g t : Layout R S).cooling = t.cooling := rfl

omit [Engine S] [Precision R S] in
@[simp] theorem cooling_obey (l : Layout R S) (o : Order R) : (l.obey o).cooling = l.cooling := by
  obtain ⟨links, charges, alpha, h⟩ := l.obey_eq o
  rw [h]
  rfl

omit [Engine S] [Precision R S] in
@[simp] theorem cooling_tune (l : Layout R S) (t : Tuning R) (g : Graph) :
    (l.tune t g).cooling = l.cooling := by
  obtain ⟨links, charges, h⟩ := l.tune_eq t g
  rw [h]
  rfl

@[simp] theorem cooling_tick (l : Layout R S) (dt : S) : (l.tick dt).cooling = l.cooling := by
  obtain ⟨bodies, positions, alpha, h⟩ := l.tick_eq dt
  rw [h]
  rfl

omit [Scalar R] [Engine S] in
@[simp] theorem cooling_pin (l : Layout R S) (i : NodeIdx) (p : Point R) :
    (l.pin i p).cooling = l.cooling := by
  unfold pin
  split_ifs <;> rfl

omit [Scalar R] [Engine S] in
@[simp] theorem cooling_carryOver (l : Layout R S) (g previousGraph : Graph)
    (previous : Layout R S) :
    (l.carryOver g previousGraph previous).1.cooling = l.cooling := rfl

/-- The layout runs, cools and damps as a tuning says. -/
structure GovernedBy (l : Layout R S) (t : Tuning R) : Prop where
  isRunning_iff : l.isRunning ↔ t.alphaMin ≤ l.alpha
  alpha_tick : ∀ dt, l.isRunning → (l.tick dt).alpha = l.alpha - l.alpha * t.alphaDecay
  damping_eq : l.damping = narrow t.velocityRetention

theorem governedBy_of_cooling {l : Layout R S} {t : Tuning R} (h : l.cooling = t.cooling) :
    l.GovernedBy t := by
  obtain ⟨hdecay, hrest, hdamping⟩ := Cooling.mk.inj h
  refine ⟨?_, fun dt hrun => ?_, hdamping⟩
  · rw [isRunning, decide_eq_true_iff, hrest]
  · rw [tick, if_pos hrun, ← hdecay]
    rfl

end Layout

/-- The tuning in force, and the one that the layout was laid out with. -/
structure Regime (R : Type) where
  inForce : Tuning R
  laidOut : Tuning R

namespace Regime

omit [Scalar R] in
/-- Retuning changes the tuning in force; another graph is laid out with it. -/
def next (t : Regime R) : Operation R S → Regime R
  | .retune tuning => { t with inForce := tuning }
  | .replace _ => { t with laidOut := t.inForce }
  | _ => t

omit [Scalar R] in
def after (t : Regime R) (ops : List (Operation R S)) : Regime R := ops.foldl next t

/-- The view has the tuning in force, and its layout cools as it was laid out to. -/
structure Holds (t : Regime R) (v : View R S) : Prop where
  tuning_eq : v.tuning = t.inForce
  cooling_eq : v.layout.cooling = t.laidOut.cooling

end Regime

namespace View

omit [Engine S] in
theorem cooling_dragTo (v : View R S) (p : Point R) :
    (v.dragTo p).value.tuning = v.tuning ∧ (v.dragTo p).value.layout.cooling = v.layout.cooling := by
  obtain ⟨moved, layout, hv, -, hl⟩ := v.dragTo_eq p
  rw [hv]
  refine ⟨rfl, ?_⟩
  rcases hl with rfl | ⟨i, rfl | rfl⟩ <;> simp

omit [Engine S] in
theorem cooling_point (v : View R S) (p : Point R) :
    (v.point p).value.tuning = v.tuning ∧
      (v.point p).value.layout.cooling = v.layout.cooling := by
  unfold point
  split
  · exact v.cooling_dragTo p
  · obtain ⟨camera, moved, hp⟩ := v.panTo_eq p
    dsimp only
    rw [hp]
    exact ⟨rfl, rfl⟩

end View

theorem Regime.Holds.perform {t : Regime R} {v : View R S} {op : Operation R S}
    {o : Outcome (View R S)} (hv : t.Holds v) (h : v.perform? op = some o) :
    (t.next op).Holds o.value := by
  cases op with
  | press p =>
    obtain rfl := Option.some.inj h
    obtain ⟨drag, pan, hp⟩ := v.press_eq p
    rw [hp]
    exact ⟨hv.tuning_eq, hv.cooling_eq⟩
  | point p =>
    obtain rfl := Option.some.inj h
    obtain ⟨ht, hc⟩ := v.cooling_point p
    exact ⟨ht.trans hv.tuning_eq, hc.trans hv.cooling_eq⟩
  | lift p =>
    obtain rfl := Option.some.inj h
    exact ⟨hv.tuning_eq, hv.cooling_eq⟩
  | exit =>
    obtain rfl := Option.some.inj h
    exact ⟨hv.tuning_eq, hv.cooling_eq⟩
  | zoom p turn =>
    obtain ⟨w, hw, rfl⟩ := Option.map_eq_some_iff.mp h
    obtain ⟨sizes, rfl⟩ := View.zoomAt?_eq_some hw
    exact ⟨hv.tuning_eq, hv.cooling_eq⟩
  | tick dt =>
    obtain ⟨w, hw, rfl⟩ := Option.map_eq_some_iff.mp h
    obtain ⟨sizes, rfl⟩ := View.tick?_eq_some hw
    exact ⟨hv.tuning_eq, (v.layout.cooling_tick dt).trans hv.cooling_eq⟩
  | resize width height =>
    obtain rfl := Option.some.inj h
    exact ⟨hv.tuning_eq, hv.cooling_eq⟩
  | retune tuning =>
    obtain rfl := Option.some.inj h
    exact ⟨rfl, (v.layout.cooling_tune tuning v.graph).trans hv.cooling_eq⟩
  | replace g =>
    obtain rfl := Option.some.inj h
    refine ⟨hv.tuning_eq, ?_⟩
    calc (v.replace g).value.layout.cooling
      _ = (Layout.ofGraph g v.tuning : Layout R S).cooling := by
        rw [View.replace, Layout.cooling_tune, Layout.cooling_carryOver]
      _ = t.inForce.cooling := by rw [Layout.cooling_ofGraph, hv.tuning_eq]

theorem Regime.Holds.run {t : Regime R} {o r : Outcome (View R S)} {ops : List (Operation R S)}
    (ho : t.Holds o.value) (h : o.run? ops = some r) : (t.after ops).Holds r.value := by
  induction ops generalizing t o with
  | nil =>
    obtain rfl : o = r := by simpa using h
    exact ho
  | cons op ops ih =>
    obtain ⟨m, hm, hr⟩ := Outcome.run?_cons.mp h
    obtain ⟨next, hn, hnext⟩ := Outcome.perform?_eq_some.mp hm
    have hholds : (t.next op).Holds m.value := by
      subst hnext
      exact Regime.Holds.perform (o := next) ho hn
    exact ih hholds hr

namespace View

/-- However a run goes, its layout is governed by the tuning that it was laid out with, which may
not be the tuning in force. The two agree on how it cools just when their numbers for it agree. -/
theorem governed_by_laidOut {g : Graph} {tuning : Tuning R} {sizing : Sizing R} {width height : R}
    {o r : Outcome (View R S)} {ops : List (Operation R S)}
    (ho : start? g tuning sizing width height = some o) (hr : o.run? ops = some r) :
    let t := Regime.after ⟨tuning, tuning⟩ ops
    r.value.tuning = t.inForce ∧ r.value.layout.GovernedBy t.laidOut ∧
      (r.value.layout.cooling = r.value.tuning.cooling ↔
        (t.laidOut.cooling : Cooling R S) = t.inForce.cooling) ∧
      ∀ c, (r.value.retune c).value.layout.cooling = c.cooling ↔
        (t.laidOut.cooling : Cooling R S) = c.cooling := by
  intro t
  obtain ⟨sizes, -, hv, -⟩ := start?_eq_some ho
  have hstart : (⟨tuning, tuning⟩ : Regime R).Holds o.value := by
    rw [hv]
    exact ⟨rfl, Layout.cooling_tune _ tuning g⟩
  have hrun : t.Holds r.value := hstart.run hr
  refine ⟨hrun.tuning_eq, Layout.governedBy_of_cooling hrun.cooling_eq, ?_, fun c => ?_⟩
  · rw [hrun.tuning_eq, hrun.cooling_eq]
  · rw [retune, Layout.cooling_tune, hrun.cooling_eq]

/-- A tuning bears on the layout of the next graph. -/
theorem governed_after_replace : ∃ r : Outcome (View Float Float32),
    r.value.tuning = { Tuning.standard with alphaDecay := 0.5, alphaMin := 0.6 } ∧
      r.value.layout.GovernedBy r.value.tuning := by
  let c : Tuning Float := { Tuning.standard with alphaDecay := 0.5, alphaMin := 0.6 }
  obtain ⟨o, ho⟩ : ∃ o : Outcome (View Float Float32),
      start? .empty .standard .standard 0 0 = some o := ⟨_, rfl⟩
  obtain ⟨r, hr⟩ : ∃ r, o.run? [.retune c, .replace .empty] = some r := ⟨_, rfl⟩
  obtain ⟨ht, hg, -⟩ := governed_by_laidOut ho hr
  exact ⟨r, ht, ht ▸ hg⟩

/-- A tuning does not bear on the layout that there is. -/
theorem not_governed_after_retune : ∃ o r : Outcome (View Float Float32),
    start? (.ofParts [⟨⟨"a"⟩, .interface, {}⟩] []) .standard .standard 800 600 = some o ∧
      o.run? [.retune { Tuning.standard with alphaDecay := 0.5, alphaMin := 0.6 }] = some r ∧
      ¬ r.value.layout.GovernedBy r.value.tuning := by
  refine ⟨_, _, rfl, rfl, fun h => ?_⟩
  exact absurd (h.alpha_tick 0 (by decide +kernel)) (by decide +kernel)

end View

end TunnelMap
