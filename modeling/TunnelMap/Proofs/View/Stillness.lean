import TunnelMap.Proofs.View.Guard

/-! What leaves the layout of a view as it is. A layout is changed by time while it runs, by a pointer
that takes a node along, and by another tuning or graph, and by nothing else. A pointer takes a node
along once it holds one and has travelled. A layout that has cooled down is left by time as well, down to
its last body, so it stays as it is until one of the others comes. Time on its part changes nothing but
the layout and the clock of the particles. -/

namespace TunnelMap

variable {R S : Type} [Scalar R] [Engine S] [Precision R S]

/-- Each of some operations in turn meets a condition at the view that it comes to. -/
def Outcome.Throughout (P : View R S → Operation R S → Prop) (o : Outcome (View R S)) :
    List (Operation R S) → Prop
  | [] => True
  | op :: ops => P o.value op ∧ ∀ m, o.perform? op = some m → m.Throughout P ops

theorem Layout.tick_of_not_running {l : Layout R S} (h : ¬ l.isRunning) (dt : S) : l.tick dt = l :=
  if_neg h

namespace View

omit [Engine S] [Precision R S] in
/-- A pointer that moves to `p` takes a node along: it holds one, and it has travelled by then. -/
def Hauls (v : View R S) (p : Point R) : Prop := v.drag.active ∧ (v.track v.drag.start p).moved

omit [Engine S] [Precision R S] in
/-- The operations that may change a layout at rest. -/
def Disturbs (v : View R S) : Operation R S → Prop
  | .point p => v.Hauls p
  | .retune _ | .replace _ => True
  | _ => False

omit [Engine S] [Precision R S] in
theorem fromSnapshot_of_not_disturbs {v : View R S} {op : Operation R S} (h : ¬ v.Disturbs op) :
    op.FromSnapshot := by
  cases op with
  | replace => exact (h trivial).elim
  | _ => trivial

/-- Apart from time, what does not disturb the layout leaves it, whether it runs or not. -/
theorem layout_of_not_disturbs {v : View R S} {op : Operation R S} {o : Outcome (View R S)}
    (hop : ¬ v.Disturbs op) (htick : ∀ dt, op ≠ .tick dt) (h : v.perform? op = some o) :
    o.value.layout = v.layout := by
  have hyields := perform?_yields h
  generalize o.value = w at hyields
  cases hyields with
  | drag alpha hd hm => exact (hop ⟨hd.active, hm⟩).elim
  | tick dt => exact (htick dt rfl).elim
  | retune => exact (hop trivial).elim
  | replace => exact (hop trivial).elim
  | _ => rfl

/-- A layout at rest is left by time as well. -/
theorem layout_of_rest {v : View R S} {op : Operation R S} {o : Outcome (View R S)}
    (hrest : ¬ v.layout.isRunning) (hop : ¬ v.Disturbs op) (h : v.perform? op = some o) :
    o.value.layout = v.layout := by
  by_cases htick : ∃ dt, op = .tick dt
  · obtain ⟨dt, rfl⟩ := htick
    obtain ⟨w, hw, rfl⟩ := Option.map_eq_some_iff.mp h
    obtain ⟨sizes, rfl⟩ := tick?_eq_some hw
    exact Layout.tick_of_not_running hrest dt
  · exact layout_of_not_disturbs hop (not_exists.mp htick) h

variable {S : Type} [Engine S] [Precision Float S]

/-- A layout at rest stays as it is through any operations that do not disturb it where they come. -/
theorem run?_rest {o : Outcome (View Float S)} {ops : List (Operation Float S)}
    (hreach : o.value.Reachable) (hrest : ¬ o.value.layout.isRunning)
    (hops : o.Throughout (fun v op => ¬ v.Disturbs op) ops) :
    ∃ r, o.run? ops = some r ∧ r.value.layout = o.value.layout := by
  induction ops generalizing o with
  | nil => exact ⟨o, rfl, rfl⟩
  | cons op ops ih =>
    obtain ⟨hop, hops⟩ := hops
    obtain ⟨next, hnext⟩ := hreach.exists_perform? op
    obtain ⟨m, hm, hvalue⟩ : ∃ m, o.perform? op = some m ∧ m.value = next.value :=
      ⟨_, Outcome.perform?_eq_some.mpr ⟨next, hnext, rfl⟩, rfl⟩
    have hlayout : m.value.layout = o.value.layout := by
      rw [hvalue, layout_of_rest hrest hop hnext]
    have hmreach : m.value.Reachable :=
      hvalue ▸ .perform hreach (fromSnapshot_of_not_disturbs hop) hnext
    obtain ⟨r, hr, hrl⟩ := ih hmreach (by rwa [hlayout]) (hops m hm)
    exact ⟨r, Outcome.run?_cons.mpr ⟨m, hm, hr⟩, hrl.trans hlayout⟩

/-- Of a view that comes about, the layout is left by every operation but time, a pointer that takes a
node along, and another tuning or graph. At rest it is left by time too, so it stays as it is through
all runs of these. Time changes only the layout and the clock of the particles, and tells nothing. -/
theorem Reachable.layout_stays {v : View Float S} (h : v.Reachable) :
    (∀ op, ¬ v.Disturbs op → (∀ dt, op ≠ .tick dt) →
      ∃ o, v.perform? op = some o ∧ o.value.layout = v.layout) ∧
    (¬ v.layout.isRunning → (∀ dt, v.layout.tick dt = v.layout) ∧
      ∀ ops, Outcome.Throughout (fun w op => ¬ w.Disturbs op) { value := v } ops →
        ∃ r, Outcome.run? { value := v } ops = some r ∧ r.value.layout = v.layout) ∧
    ∀ dt, v.perform? (.tick dt) = some
      { value := { v with layout := v.layout.tick dt, flowTime := v.flowTime + widen dt } } := by
  refine ⟨fun op hop htick => ?_, fun hrest => ⟨Layout.tick_of_not_running hrest, fun ops hops => ?_⟩,
    fun dt => ?_⟩
  · obtain ⟨o, ho⟩ := h.exists_perform? op
    exact ⟨o, ho, layout_of_not_disturbs hop htick ho⟩
  · exact run?_rest (o := { value := v }) h hrest hops
  · rw [View.perform?, h.sized.tick?_eq]
    rfl

omit [Engine S] [Precision Float S] in
/-- A pointer that has not come far since it was pressed takes nothing along. -/
theorem not_hauls_press {v : View Float S} (hd : v.drag.active = false) {p q : Point Float}
    (hslop : ¬ clickSlop < q.dist p) : ¬ (v.press p).Hauls q := by
  rintro ⟨hheld, htravelled⟩
  rw [track_moved] at htravelled
  cases hat : v.nodeAt? p with
  | some i =>
    rw [press_node hat] at htravelled
    exact htravelled.elim hslop Bool.false_ne_true
  | none =>
    rw [press_ground hat] at hheld
    exact absurd hheld (by simp [hd])

/-- A layout that rests at full heat stays as it is while the pointer trembles, the wheel is turned and
time passes. -/
theorem layout_stays_at_press : ∃ (o r : Outcome (View Float Float32)) (p q : Point Float),
    o.value.Reachable ∧ ¬ o.value.layout.isRunning ∧ q.dist p = 1 ∧
      Outcome.run? { value := o.value } [.press p, .point q, .zoom p 1, .tick 0.01, .lift q] =
        some r ∧ r.value.layout = o.value.layout := by
  let a : NodeEntry := ⟨⟨"a"⟩, .interface, {}⟩
  let restless : Tuning Float := { Tuning.standard with alphaMin := 2 }
  obtain ⟨o, ho⟩ : ∃ o : Outcome (View Float Float32),
      start? (.ofParts [a.node] []) restless .standard 800 600 = some o := ⟨_, rfl⟩
  obtain ⟨sizes, -, hv, -⟩ := start?_eq_some ho
  have hreach : o.value.Reachable := .start (.lone a) ho
  have hrest : ¬ o.value.layout.isRunning := by
    have hcold : ¬ (2 : Float) ≤ 1 := by decide +kernel
    rw [hv]
    exact (Layout.isRunning_tune ..).not.mpr hcold
  have hfree : o.value.drag.active = false := by rw [hv]; rfl
  have hslop : ¬ clickSlop < (⟨6, 5⟩ : Point Float).dist ⟨5, 5⟩ := by decide +kernel
  have hops : Outcome.Throughout (fun (w : View Float Float32) op => ¬ w.Disturbs op)
      { value := o.value } [.press ⟨5, 5⟩, .point ⟨6, 5⟩, .zoom ⟨5, 5⟩ 1, .tick 0.01, .lift ⟨6, 5⟩] := by
    refine ⟨id, fun m hm => ⟨?_, fun m' _ => ⟨id, fun m'' _ => ⟨id, fun _ _ => ⟨id, fun _ _ => trivial⟩⟩⟩⟩⟩
    obtain rfl := Option.some.inj hm
    exact not_hauls_press hfree hslop
  obtain ⟨-, hstays, -⟩ := hreach.layout_stays
  obtain ⟨r, hr, hlayout⟩ := (hstays hrest).2 _ hops
  exact ⟨o, r, _, _, hreach, hrest, by decide +kernel, hr, hlayout⟩

end View

end TunnelMap
