import TunnelMap.Proofs.Page.Run
import TunnelMap.Proofs.Scalar.Binary

/-! Frames. While a map lives just one frame is asked for, whatever happens in between: drawing it asks for
the next, and nothing else does. A frame lets time pass once and draws the view once. The time that it
lets pass is held between nothing and the longest step, so a clock that is put back does not turn back
the time of the map. -/

namespace TunnelMap

/-- The laws of arithmetic that the time of a map goes by. They speak of what is not less, so they are laws
of binary floating point too, where what is not a number is never less. -/
structure Clockwork (R S : Type) [Scalar R] [Precision R S] : Prop where
  maxFrame_pos : (0 : R) < MapCanvas.maxFrame
  lt_asymm : ∀ {x y : R}, x < y → ¬ y < x
  /-- What is less or more than something is a number: it compares with itself. -/
  le_self_of_lt : ∀ {x y : R}, x < y → x ≤ x ∧ y ≤ y
  le_of_not_lt : ∀ {x y : R}, x ≤ x → y ≤ y → ¬ x < y → y ≤ x
  not_add_lt : ∀ {x y d : R}, ¬ y < 0 → ¬ d < 0 → ¬ y < x → ¬ y + d < x
  not_widen_neg : ∀ {d : R}, ¬ d < 0 → ¬ (widen (narrow d : S) : R) < 0

theorem clockwork_real : Clockwork ℝ ℝ where
  maxFrame_pos := by
    calc (Scalar.ofNat 0 : ℝ) = 0 := Nat.cast_zero
      _ < 5 / 10 ^ 2 := by norm_num
  lt_asymm := lt_asymm
  le_self_of_lt _ := ⟨le_rfl, le_rfl⟩
  le_of_not_lt _ _ h := not_lt.mp h
  not_add_lt {x y d} _ hd hx := by
    have hpos : ((0 : ℕ) : ℝ) ≤ d := not_lt.mp hd
    exact not_lt.mpr (le_add_of_le_of_nonneg (not_lt.mp hx) (Nat.cast_zero.symm.trans_le hpos))
  not_widen_neg h := h

/-- The numbers that the program runs on go by the laws, provided that rounding to the shorter format keeps
the sign. -/
theorem clockwork_binary
    (hwiden : ∀ d : Float, ¬ d < 0 → ¬ (widen (narrow d : Float32) : Float) < 0) :
    Clockwork Float Float32 where
  maxFrame_pos := by decide +kernel
  lt_asymm := Binary.lt_asymm
  le_self_of_lt := Binary.le_self_of_lt
  le_of_not_lt := Binary.le_of_not_lt
  not_add_lt := Binary.not_add_lt
  not_widen_neg := hwiden _

variable {R S : Type} [Scalar R] [Precision R S]

namespace Clockwork

open MapCanvas

variable (hr : Clockwork R S)

include hr

theorem not_lt_self (x : R) : ¬ x < x := fun h => hr.lt_asymm h h

/-- Nothing that the clock says makes a step too short or too long. -/
theorem frameStep_within (last now : R) :
    ¬ frameStep last now < 0 ∧ ¬ maxFrame < frameStep last now := by
  unfold frameStep Scalar.clamp
  split_ifs with hlow hhigh
  · exact ⟨hr.not_lt_self 0, hr.lt_asymm hr.maxFrame_pos⟩
  · exact ⟨hr.lt_asymm hr.maxFrame_pos, hr.not_lt_self maxFrame⟩
  · exact ⟨hlow, hhigh⟩

/-- If the clock tells a number of milliseconds, the step is between the two bounds. -/
theorem frameStep_between {last now : R} (h : (now - last) / 1000 ≤ (now - last) / 1000) :
    0 ≤ frameStep last now ∧ frameStep last now ≤ maxFrame := by
  obtain ⟨hzero, hmax⟩ := hr.le_self_of_lt hr.maxFrame_pos
  have hstep : frameStep last now ≤ frameStep last now := by
    unfold frameStep Scalar.clamp
    split_ifs
    · exact hzero
    · exact hmax
    · exact h
  obtain ⟨hlow, hhigh⟩ := hr.frameStep_within last now
  exact ⟨hr.le_of_not_lt hstep hzero hlow, hr.le_of_not_lt hmax hstep hhigh⟩

end Clockwork

/-! ### The time of a map -/

variable [Engine S]

theorem View.perform?_flowTime {v : View R S} {op : Operation R S} {o : Outcome (View R S)}
    (h : v.perform? op = some o) : o.value.flowTime =
      match op with
      | .tick dt => v.flowTime + widen dt
      | _ => v.flowTime := by
  have hyields := perform?_yields h
  obtain ⟨w, events, notices⟩ := o
  cases hyields <;> rfl

namespace MapCanvas

variable {c : MapCanvas R S} {m : LiveMap R S}

omit [Engine S] in
/-- Only frames let time pass. -/
theorem operation?_tick {h : Happening R} {dt : S} (hop : c.operation? m h = some (.tick dt)) :
    ∃ now, dt = narrow (frameStep m.lastFrame now) := by
  cases h with
  | deliver s =>
    obtain ⟨g, -, hg⟩ := Option.map_eq_some_iff.mp hop
    exact nomatch hg
  | input i => cases i <;> exact nomatch hop
  | resize width height =>
    unfold operation? at hop
    split_ifs at hop
    exact nomatch hop
  | frame ms => exact ⟨_, (Operation.tick.inj (Option.some.inj hop)).symm⟩
  | surround s => exact nomatch hop

/-- The time of a living map only goes on, by the step of a frame. -/
theorem performAny?_flowTime {h : Happening R} {u : Outcome (View R S)}
    (hu : m.view.performAny? (c.operation? m h) = some u) :
    u.value.flowTime = m.view.flowTime ∨ ∃ now,
      u.value.flowTime = m.view.flowTime + widen (narrow (frameStep m.lastFrame now) : S) := by
  obtain ⟨-, rfl⟩ | ⟨op, hop, hu⟩ := View.performAny?_eq_some.mp hu
  · exact .inl rfl
  · have htime := View.perform?_flowTime hu
    cases op with
    | tick dt =>
      obtain ⟨now, rfl⟩ := operation?_tick hop
      exact .inr ⟨now, htime⟩
    | _ => exact .inl htime

section

variable (hr : Clockwork R S)

include hr

/-- Nothing that happens puts the time of a living map back to one that it is past. -/
theorem not_flowTime_lt_of_performAny? (hpos : ¬ m.view.flowTime < 0) {h : Happening R}
    {u : Outcome (View R S)} (hu : m.view.performAny? (c.operation? m h) = some u) {t : R}
    (ht : ¬ m.view.flowTime < t) : ¬ u.value.flowTime < t := by
  obtain hsame | ⟨now, hlater⟩ := performAny?_flowTime hu
  · rwa [hsame]
  · rw [hlater]
    exact hr.not_add_lt hpos (hr.not_widen_neg (hr.frameStep_within m.lastFrame now).1) ht

theorem Reachable.not_flowTime_neg (hc : c.Reachable) (hm : c.live = some m) :
    ¬ m.view.flowTime < 0 := by
  induction hc generalizing m with
  | fresh settings surroundings => exact nomatch hm
  | @happen c h o hc ho ih =>
    cases hlive : c.live with
    | none =>
      obtain ⟨_, _, hv⟩ | ⟨s, _, u, -, hu, hv⟩ := happen?_waiting hc.armed hlive ho
      · rw [hv, hlive] at hm
        exact nomatch hm
      · rw [hv] at hm
        obtain rfl := Option.some.inj hm
        obtain ⟨_, -, hstart, -⟩ := View.start?_eq_some hu
        rw [hstart]
        exact hr.not_lt_self 0
    | some m' =>
      obtain ⟨hf, -, -⟩ := hc.armed.alive m' hlive
      obtain ⟨_, _, _, u, hu, hv⟩ := happen?_alive hf hlive ho
      rw [hv] at hm
      obtain rfl := Option.some.inj hm
      exact not_flowTime_lt_of_performAny? hr (ih hlive) hu (ih hlive)

theorem Reachable.not_flowTime_lt (hc : c.Reachable) (hm : c.live = some m) {hs : List (Happening R)}
    {r : Outcome (MapCanvas R S)} (h : c.run? hs = some r) :
    ∃ m', r.value.live = some m' ∧ ¬ m'.view.flowTime < m.view.flowTime := by
  refine (Outcome.goAll?_keeps
    (P := fun c => c.Reachable ∧ ∃ m', c.live = some m' ∧ ¬ m'.view.flowTime < m.view.flowTime)
    (fun c h next ⟨hc, m', hm', ht⟩ _ ho => ?_) ⟨hc, m, hm, hr.not_lt_self _⟩ h).2
  obtain ⟨hf, -, -⟩ := hc.armed.alive m' hm'
  obtain ⟨_, _, _, u, hu, hv⟩ := happen?_alive hf hm' ho
  refine ⟨.happen hc ho, _, by rw [hv], ?_⟩
  exact not_flowTime_lt_of_performAny? hr (hc.not_flowTime_neg hr hm') hu ht

/-- What goes on at a canvas whose map lives, whatever has happened to it. One frame is asked for, and
the window is listened to once if the map fills it, else not at all. When a frame is drawn, whatever the
clock says then, the view lets a step pass that is neither below nothing nor above the longest, and
between the two if the clock tells a number; the view is drawn as it is then, and one frame is asked for
again. Whatever happens further, the map lives on, and its time is never before what it was. -/
theorem Reachable.beats (hc : c.Reachable) (hm : c.live = some m) :
    c.frames = 1 ∧ c.listeners = (if c.settings.fullscreen then ["resize"] else []) ∧
    (∀ ms,
      let now := c.surroundings.now + ms
      let dt := frameStep m.lastFrame now
      (¬ dt < 0 ∧ ¬ maxFrame < dt) ∧
      ((now - m.lastFrame) / 1000 ≤ (now - m.lastFrame) / 1000 → 0 ≤ dt ∧ dt ≤ maxFrame) ∧
      ∃ w, m.view.tick? (narrow dt) = some w ∧
        c.frame? ms = some ({ c with
          surroundings := { c.surroundings with now }
          live := some ⟨w, now⟩
          frames := 1 }, w.draw c.settings.theme)) ∧
    ∀ hs r, c.run? hs = some r →
      ∃ m', r.value.live = some m' ∧ ¬ m'.view.flowTime < m.view.flowTime := by
  obtain ⟨hf, hl, -⟩ := hc.armed.alive m hm
  refine ⟨hf, hl, fun ms => ⟨hr.frameStep_within _ _, hr.frameStep_between, ?_⟩,
    fun hs r h => hc.not_flowTime_lt hr hm h⟩
  rw [← hf]
  exact hc.armed.frame?_eq hm ms

end

/-- The clock is put back: the view stays where it is in time, and is drawn. -/
theorem beats_with_clock_put_back : ∃ (c d : MapCanvas ℝ ℝ) (m : LiveMap ℝ ℝ) (w : View ℝ ℝ),
    c.Reachable ∧ c.live = some m ∧ c.surroundings.now = m.lastFrame ∧ m.view.tick? (0 : ℝ) = some w ∧
      c.frame? (-5) = some (d, w.draw c.settings.theme) ∧ d.frames = 1 ∧
      ∀ r, c.run? [.frame (-5), .deliver {}] = some r →
        ∃ m', r.value.live = some m' ∧ ¬ m'.view.flowTime < m.view.flowTime := by
  obtain ⟨b, o, m, hb, -, ho, hm⟩ := exists_delivered (S := ℝ) {}
  have ho' : b.happen? (.deliver {}) = some o := ho
  let c : MapCanvas ℝ ℝ :=
    { o.value with surroundings := { o.value.surroundings with now := m.lastFrame } }
  have hset : o.value.happen? (.surround { o.value.surroundings with now := m.lastFrame }) =
    some { value := c } := rfl
  have hc : c.Reachable := .happen (.happen hb ho') hset
  obtain ⟨-, -, hframes, hruns⟩ := hc.beats clockwork_real hm
  obtain ⟨-, -, w, hw, hframe⟩ := hframes (-5)
  have hback : (m.lastFrame + -5 - m.lastFrame) / Scalar.ofNat 1000 < (Scalar.ofNat 0 : ℝ) := by
    norm_num
  have hstep : frameStep m.lastFrame (c.surroundings.now + -5) = 0 :=
    (if_pos hback).trans (Scalar.ofNat_real 0 |>.trans Nat.cast_zero)
  rw [hstep] at hw
  exact ⟨c, _, m, w, hc, hm, rfl, hw, hframe, rfl, fun r hr => hruns _ r hr⟩

end MapCanvas

end TunnelMap
