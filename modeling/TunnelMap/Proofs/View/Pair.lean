import TunnelMap.Proofs.View.Cooling
import TunnelMap.Proofs.View.Exact
import TunnelMap.Proofs.View.Tuned

/-! Two nodes that no link draws at. A step pushes their bodies apart, and they keep a part of the speed
that they get; so one step later they go on by themselves. In exact arithmetic, from the places where
nodes start and under the standard tuning, the first of the two is set going to the right. -/

namespace TunnelMap

/-- What a force makes of a free body within a step, along the first axis. -/
theorem Body.move_push_free {S : Type} [Scalar S] {b : Body S} (h : b.anchored = false) (s : Sweep S)
    (fx fy : S) :
    let c := (b.push s.dt fx fy).move s
    c.vx = (b.vx + (b.ax + limit fx * s.dt) * s.dt * pace) * s.damping ∧ c.ax = 0 ∧
      c.x = b.x + c.vx * s.dt := by
  simp [push, move, h]

namespace Layout

section Step

variable {R S : Type} [Scalar R] [Engine S] [Precision R S]

omit [Scalar R] [Engine S] in
theorem align_speed (l : Layout R S) (b : Body S) : (l.align b).vx = b.vx ∧ (l.align b).ax = b.ax := by
  unfold align
  split <;> exact ⟨rfl, rfl⟩

omit [Engine S] [Precision R S] in
theorem applyLinks_eq_self {l : Layout R S} (h : l.links = []) : l.applyLinks = l :=
  congrArg (fun ks => { l with positions := ks.foldl (drawLink l.alpha l.pinned) l.positions }) h

omit [Scalar R] [Engine S] in
/-- A body is anchored just if its node is pinned. -/
theorem Fits.anchored_eq {l : Layout R S} {g : Graph} (h : l.Fits g) {i : NodeIdx} {b : Body S}
    {pinned : Bool} (hb : l.bodies[i]? = some b) (hp : l.pinned[i]? = some pinned) :
    b.anchored = pinned := by
  obtain rfl : b.node = i := h.staffed.node_eq hb
  obtain ⟨p, pinned', hplace, hp'⟩ := h.staffed.exists_entry (h.staffed.node_lt (List.mem_of_getElem? hb))
  obtain rfl : pinned = pinned' := Option.some.inj (hp.symm.trans hp')
  rw [← h.inStep b (List.mem_of_getElem? hb) p pinned hplace hp]
  rfl

end Step

end Layout

/-! ### In exact arithmetic -/

theorem Scalar.max_real (x y : ℝ) : Scalar.max x y = Max.max x y := by
  unfold Scalar.max
  rw [if_pos (beq_self_eq_true x), max_def_lt]

namespace Body

theorem limit_pos {f : ℝ} (h : 0 < f) : 0 < limit f := by
  have hbound : (0 : ℝ) < maxForce := Nat.cast_pos.mpr (by decide : 0 < 100)
  rw [limit, Scalar.min_real, Scalar.max_real]
  exact lt_min (h.trans_le (le_max_left _ _)) hbound

/-- Of two bodies, the one that is farther to the right is pushed to the right. -/
theorem repulsion_pos {charge : ℝ} {a b : Body ℝ} (hc : 0 < charge) (hx : b.x < a.x) :
    0 < (repulsion charge a b).1 := by
  have hdx : b.x - a.x < 0 := sub_neg.mpr hx
  have happart : ¬ ((b.x - a.x == 0) = true ∧ (b.y - a.y == 0) = true) := fun h =>
    hdx.ne (by simpa using h.1)
  have hdist : 0 < √((b.x - a.x) * (b.x - a.x) + (b.y - a.y) * (b.y - a.y)) :=
    Real.sqrt_pos.mpr (by nlinarith [mul_self_nonneg (b.y - a.y), mul_pos_of_neg_of_neg hdx hdx])
  have hmass : (0 : ℝ) < mass := Nat.cast_pos.mpr (by decide : 0 < 10)
  have hstrength := mul_pos hc (div_pos (mul_pos hmass hmass) (mul_pos hdist hdist))
  have hpush := mul_pos_of_neg_of_neg (div_neg_of_neg_of_pos hdx hdist) (neg_neg_of_pos hstrength)
  rw [← neg_mul] at hpush
  simp only [repulsion, Bool.and_eq_true, Scalar.sqrt_real, Scalar.zero_real]
  rwa [if_neg happart]

end Body

namespace Layout

/-- The force along the first axis on the first of two bodies. -/
noncomputable def thrust (l : Layout ℝ ℝ) (a b : Body ℝ) : ℝ :=
  Body.limit (Body.repulsion (narrow (l.meanRepulsion * l.alpha)) a b).1

/-- The speed along the first axis that a step gives to the first of two bodies. -/
noncomputable def stride (l : Layout ℝ ℝ) (a b : Body ℝ) (dt : ℝ) : ℝ :=
  (a.vx + (a.ax + l.thrust a b * dt) * dt * Body.pace) * l.damping

variable {l : Layout ℝ ℝ}

/-- The first of two free bodies goes by the speed that the step gives to it, and keeps that speed. -/
theorem tick_pair {a b : Body ℝ} (hrun : l.isRunning) (hs : l.Staffed 2)
    (hb : l.bodies = [a, b]) (hl : l.links = []) (ha : a.anchored = false) (dt : ℝ) :
    (l.tick dt).positions[0]?.map (·.x) = some (widen (a.x + l.stride a b dt * dt)) ∧
      ∃ a' b', (l.tick dt).bodies = [a', b'] ∧ a'.vx = l.stride a b dt ∧ a'.ax = 0 := by
  obtain ⟨a', b', hswept, hvx, hax, hx⟩ : ∃ a' b', (l.sweep dt).bodies = [a', b'] ∧
      a'.vx = l.stride a b dt ∧ a'.ax = 0 ∧ a'.x = a.x + l.stride a b dt * dt := by
    have hforce := Body.move_push_free ha ⟨narrow (l.meanRepulsion * l.alpha), l.damping, dt⟩
      (Body.repulsion (narrow (l.meanRepulsion * l.alpha)) a b).1
      (Body.repulsion (narrow (l.meanRepulsion * l.alpha)) a b).2
    obtain ⟨hvx, hax, hx⟩ := hforce
    exact ⟨_, _, by rw [sweep, hb]; rfl, hvx,
      hax.trans Scalar.zero_real, by rw [hx, hvx]; rfl⟩
  have hnode : a'.node = 0 := (hs.sweep dt).node_eq (i := 0) (by rw [hswept]; rfl)
  have hplace : (l.sweep dt).positions[0]? = some (spot a') := by
    have hmem : a' ∈ (l.sweep dt).bodies := by rw [hswept]; exact List.mem_cons_self
    have hlt : a'.node < l.positions.length := by rw [hnode, hs.positions]; decide
    exact hnode ▸ foldl_fetch_of_mem (hs.sweep dt).nodes_nodup hmem hlt
  have htick : l.tick dt = (l.sweep dt).writeBack.cool := by
    rw [tick, if_pos hrun, applyLinks_eq_self (l := l.sweep dt) hl]
  rw [htick]
  refine ⟨?_, (l.sweep dt).align a', (l.sweep dt).align b', ?_, ?_, ?_⟩
  · change (l.sweep dt).positions[0]?.map (·.x) = _
    rw [hplace, ← hx]
    rfl
  · change (l.sweep dt).bodies.map (l.sweep dt).align = _
    rw [hswept]
    rfl
  · rw [(align_speed _ a').1, hvx]
  · rw [(align_speed _ a').2, hax]

theorem meanRepulsion_pos {c d : ℝ} (h : l.charges = [c, d]) (hc : c < 0) (hd : d < 0) :
    0 < l.meanRepulsion := by
  have hmean : 0 < (0 + -c + -d) / (2 : ℕ) := div_pos (by linarith) (Nat.cast_pos.mpr (by decide))
  have hsum : Scalar.sum ([c, d].map fun c => -c) / Scalar.ofNat [c, d].length =
      (0 + -c + -d) / (2 : ℕ) := by
    rw [← Scalar.zero_real]
    rfl
  have hten : (0 : ℝ) < Scalar.ofNat 10 := Nat.cast_pos.mpr (by decide : 0 < 10)
  simp only [meanRepulsion, h, hsum, Scalar.max_real, List.isEmpty_cons, Bool.false_eq_true, if_false]
  exact mul_pos (lt_max_of_lt_left hmean) hten

/-- What cools as the standard tuning says still runs at full heat, and its bodies keep some speed. -/
theorem cooling_standard (h : l.cooling = Tuning.standard.cooling) :
    l.alphaMin ≤ (1 : ℝ) ∧ 0 < l.damping := by
  obtain ⟨-, hrest, hdamping⟩ := Cooling.mk.inj h
  have hmin : l.alphaMin = Scalar.ofDecimal 1 true 3 := hrest
  have hkept : l.damping = Scalar.ofDecimal 6 true 1 := hdamping
  rw [hmin, hkept, Scalar.ofDecimal_real, Scalar.ofDecimal_real]
  norm_num

/-- A body that starts from rest, to the right of the other, goes to the right. -/
theorem stride_pos {a b : Body ℝ} (hv : a.vx = Scalar.ofNat 0) (ha : a.ax = Scalar.ofNat 0)
    (hx : b.x < a.x) (hheat : 0 < l.meanRepulsion * l.alpha) (hdamping : 0 < l.damping) :
    0 < l.stride a b 1 := by
  have hthrust : 0 < l.thrust a b := Body.limit_pos (Body.repulsion_pos hheat hx)
  have hpace : (0 : ℝ) < Body.pace := Nat.cast_pos.mpr (by decide : 0 < 3000)
  rw [stride, hv, ha]
  simp only [Scalar.ofNat_real, Nat.cast_zero, zero_add, mul_one]
  exact mul_pos (mul_pos hthrust hpace) hdamping

end Layout

/-- A step sets the first of two nodes going. -/
theorem View.exists_moving : ∃ (v : View ℝ ℝ) (a b : Body ℝ), v.Reachable ∧ v.drag = .idle ∧
    v.tuning = .standard ∧ v.layout.cooling = v.tuning.cooling ∧ v.layout.Staffed 2 ∧
    v.layout.links = [] ∧ v.layout.bodies = [a, b] ∧ a.anchored = false ∧ a.ax = 0 ∧ 0 < a.vx := by
  let a : NodeEntry := ⟨⟨"a"⟩, .interface, {}⟩
  let b : NodeEntry := ⟨⟨"b"⟩, .interface, {}⟩
  let pair : Graph := .ofParts [a.node, b.node] []
  have hpair : pair.OfSnapshot := ⟨⟨[a, b], []⟩, rfl⟩
  obtain ⟨o, ho, -⟩ := exists_standard (S := ℝ) pair
  obtain ⟨sizes, hs, hv, -⟩ := start?_eq_some ho
  set l : Layout ℝ ℝ := (Layout.ofGraph pair .standard).tune .standard pair with hl
  have hlayout : o.value.layout = l := by rw [hv]
  have hfits : l.Fits pair := (Layout.fits_ofGraph pair .standard).tune .standard pair
  have htuned : l.Tuned .standard pair := (Layout.fits_ofGraph pair .standard).tuned_tune .standard
  have hlinks : l.links = [] := List.map_eq_nil_iff.mp htuned.params
  obtain ⟨links, charges, htune⟩ :=
    (Layout.ofGraph pair .standard : Layout ℝ ℝ).tune_eq .standard pair
  have hbodies : l.bodies =
      [Layout.bodyOf (Layout.seed 2 0 : Point ℝ) 0, Layout.bodyOf (Layout.seed 2 1 : Point ℝ) 1] := by
    rw [hl, htune]
    exact Layout.bodies_ofGraph pair .standard
  have hcooling : l.cooling = Tuning.standard.cooling := by
    rw [hl, Layout.cooling_tune, Layout.cooling_ofGraph]
  obtain ⟨hrest, hdamping⟩ := Layout.cooling_standard hcooling
  have hhot : l.alpha = 1 := by rw [hl, htune, Scalar.one_real]
  have hrun : l.isRunning := decide_eq_true (hrest.trans_eq hhot.symm)
  have hop : (.tick 1 : Operation ℝ ℝ).FromSnapshot := trivial
  have hzoom : o.value.sizes.k == o.value.camera.k := by
    rw [hv, Sizing.k_of_sizesAt? hs]
    exact beq_self_eq_true _
  have htick : o.value.perform? (.tick 1) = some _ :=
    Option.map_eq_some_iff.mpr ⟨_, tick?_of_sizes hzoom 1, rfl⟩
  obtain ⟨bodies, positions, alpha, hticked⟩ := l.tick_eq 1
  obtain ⟨-, a', b', hb, hvx, hax⟩ := Layout.tick_pair hrun hfits.staffed hbodies hlinks rfl 1
  have hfree : (l.tick 1).pinned[0]? = some false := by
    rw [hticked, hl, htune]
    rfl
  refine ⟨_, a', b', .perform (.start hpair ho) hop htick, by rw [hv], by rw [hv], ?_, ?_, ?_, ?_,
    (hfits.tick 1).anchored_eq (by rw [hb]; rfl) hfree, hax, ?_⟩
  · change (o.value.layout.tick 1).cooling = o.value.tuning.cooling
    rw [hlayout, Layout.cooling_tick, hcooling, hv]
  · change (o.value.layout.tick 1).Staffed 2
    rw [hlayout]
    exact (hfits.tick 1).staffed
  · change (o.value.layout.tick 1).links = []
    rw [hlayout, hticked]
    exact hlinks
  · change (o.value.layout.tick 1).bodies = [a', b']
    rw [hlayout, hb]
  · have hplaces : (Layout.seed 2 1 : Point ℝ).x < (Layout.seed 2 0 : Point ℝ).x := by
      rw [Layout.seed_two.1, Layout.seed_two.2]
      linarith [Real.sqrt_pos.mpr two_pos]
    have hcharge : (Tuning.standard.charge : ℝ) < 0 :=
      neg_neg_of_pos (Nat.cast_pos.mpr (by decide : 0 < 15))
    have hheat : 0 < l.meanRepulsion * l.alpha :=
      mul_pos (Layout.meanRepulsion_pos htuned.charges hcharge hcharge) (hhot ▸ one_pos)
    exact hvx ▸ Layout.stride_pos rfl rfl hplaces hheat hdamping

end TunnelMap
