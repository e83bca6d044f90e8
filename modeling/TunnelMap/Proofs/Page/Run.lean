import TunnelMap.Page.MapCanvas
import TunnelMap.Proofs.View.Sized

/-! What can happen to a canvas, as one type, and the canvases that can come about. A map that waits for its
first snapshot does nothing else; one that lives does at most one operation on its view whatever
happens, and always has one frame asked for. -/

namespace TunnelMap

/-- What can happen to a canvas. -/
inductive Happening (R : Type) where
  | deliver (s : Snapshot)
  | input (i : MapCanvas.Input R)
  /-- The window takes another inner size, where it has one. -/
  | resize (width height : Option R)
  /-- The frames that were asked for are drawn, some milliseconds later. -/
  | frame (ms : R)
  /-- Anything around the canvas changes, the clock included. -/
  | surround (s : Surroundings R)

variable {R S : Type} [Scalar R] [Engine S] [Precision R S]

/-! ### Snapshots -/

namespace Snapshot

def graph? (s : Snapshot) : Option Graph := s.build.result.toOption

/-- Why the snapshot has no graph. -/
def fault? (s : Snapshot) : Option BuildError :=
  match s.build.result with
  | .ok _ => none
  | .error e => some e

theorem graph?_of_fault {s : Snapshot} {e : BuildError} (h : s.fault? = some e) : s.graph? = none := by
  unfold fault? at h
  unfold graph?
  split at h
  · exact nomatch h
  · next he => rw [he]; rfl

theorem ofSnapshot {s : Snapshot} {g : Graph} (h : s.graph? = some g) : g.OfSnapshot := by
  refine ⟨s, ?_⟩
  unfold graph? at h
  cases hr : s.build.result with
  | ok g' => rw [hr] at h; exact congrArg _ (Option.some.inj h)
  | error e => rw [hr] at h; exact nomatch h

/-- The empty graph stands in where a snapshot has none. -/
theorem ofSnapshot_getD (s : Snapshot) : (s.graph?.getD .empty).OfSnapshot := by
  cases hg : s.graph? with
  | none => exact ⟨{}, rfl⟩
  | some g => exact ofSnapshot hg

/-- What there is to say about the graph of a snapshot. -/
def remarks (s : Snapshot) : List Notice := s.build.notices ++ s.fault?.toList.map .rejected

theorem build_graph? (s : Snapshot) : s.build.graph? = (s.graph?, s.remarks) := by
  unfold Graph.Built.graph? graph? remarks fault?
  split <;> simp_all [Except.toOption]

end Snapshot

namespace View

/-- Does an operation if there is one. -/
def performAny? (v : View R S) : Option (Operation R S) → Option (Outcome (View R S))
  | none => some { value := v }
  | some op => v.perform? op

theorem performAny?_eq_some {v : View R S} {op : Option (Operation R S)} {o : Outcome (View R S)} :
    v.performAny? op = some o ↔
      op = none ∧ o = { value := v } ∨ ∃ op', op = some op' ∧ v.perform? op' = some o := by
  cases op <;> simp [performAny?, eq_comm]

end View

namespace MapCanvas

def happen? (c : MapCanvas R S) : Happening R → Option (Outcome (MapCanvas R S))
  | .deliver s => c.deliver? s
  | .input i => c.handle? i
  | .resize width height => c.resizeWindow? width height
  | .frame ms => (c.frame? ms).map fun p => { value := p.1 }
  | .surround s => some { value := { c with surroundings := s } }

def run? (c : MapCanvas R S) (hs : List (Happening R)) : Option (Outcome (MapCanvas R S)) :=
  Outcome.goAll? happen? { value := c } hs

/-- The canvases that come about. -/
inductive Reachable : MapCanvas R S → Prop
  | fresh (settings : MapSettings R) (surroundings : Surroundings R) :
      Reachable (fresh settings surroundings)
  | happen {c : MapCanvas R S} {h : Happening R} {o : Outcome (MapCanvas R S)} : Reachable c →
      c.happen? h = some o → Reachable o.value

/-! ### Before the map lives -/

/-- A canvas that is ready to draw on comes to life; another one says that it is not. -/
theorem mount?_eq_some {c : MapCanvas R S} {s : Snapshot} {o : Outcome (MapCanvas R S)}
    (h : c.mount? s = some o) : ∃ size,
    (c.surroundings.drawable = false ∧
      o = { value := { c with size }, notices := [.canvasUnavailable] }) ∨
    ∃ u, View.start? (s.graph?.getD .empty) c.settings.tuning c.settings.sizing c.startSize.1
        c.startSize.2 = some u ∧
      o = {
        value := { c with
          size
          live := some ⟨u.value, c.surroundings.now⟩
          frames := c.frames + 1
          listeners := if c.settings.fullscreen then c.listeners ++ ["resize"] else c.listeners }
        notices := s.remarks ++ u.notices } := by
  unfold mount? setSize at h
  rw [s.build_graph?] at h
  generalize c.startSize = start at h ⊢
  obtain ⟨width, height⟩ := start
  refine ⟨(Scalar.toWord width, Scalar.toWord height), ?_⟩
  cases hd : c.surroundings.drawable with
  | false =>
    simp only [hd, Bool.not_false, if_true, Option.pure_def, Option.some.injEq] at h
    exact .inl ⟨rfl, h.symm⟩
  | true =>
    simp only [hd, Bool.not_true, Bool.false_eq_true, if_false, Option.bind_eq_bind,
      Option.bind_eq_some_iff, Option.pure_def, Option.some.injEq] at h
    obtain ⟨u, hu, rfl⟩ := h
    exact .inr ⟨u, hu, rfl⟩

theorem exists_mount? {c : MapCanvas R S} {s : Snapshot} {u : Outcome (View R S)}
    (hd : c.surroundings.drawable = true)
    (hu : View.start? (s.graph?.getD .empty) c.settings.tuning c.settings.sizing c.startSize.1
      c.startSize.2 = some u) :
    ∃ o, c.mount? s = some o ∧ o.value.live = some ⟨u.value, c.surroundings.now⟩ := by
  unfold mount? setSize
  rw [s.build_graph?]
  generalize c.startSize = start at hu ⊢
  obtain ⟨width, height⟩ := start
  simp only [hd, Bool.not_true, Bool.false_eq_true, if_false] at hu ⊢
  rw [hu]
  exact ⟨_, rfl, rfl⟩

/-! ### While the map lives -/

/-- The operation that a happening does on the view of a living map, if it does one. -/
def operation? (c : MapCanvas R S) (m : LiveMap R S) : Happening R → Option (Operation R S)
  | .deliver s => s.graph?.map .replace
  | .input i => some (i.operation c.surroundings)
  | .resize width height =>
    if c.listeners.isEmpty then none else some (.resize (width.getD 800) (height.getD 600))
  | .frame ms => some (.tick (narrow (frameStep m.lastFrame (c.surroundings.now + ms))))
  | .surround _ => none

end MapCanvas

/-- What is said of a happening before what is said of the operation that it does. -/
def Happening.remarks : Happening R → List Notice
  | .deliver s => s.remarks
  | _ => []

namespace MapCanvas

variable {c : MapCanvas R S} {m : LiveMap R S}

/-- A frame that was asked for lets time pass in the view, draws the view then and asks for the next. -/
theorem frame?_alive (hf : c.frames = 1) (hm : c.live = some m) (ms : R) : c.frame? ms =
    (m.view.tick? (narrow (frameStep m.lastFrame (c.surroundings.now + ms)))).map fun w =>
      ({ c with
          surroundings := { c.surroundings with now := c.surroundings.now + ms }
          live := some ⟨w, c.surroundings.now + ms⟩ }, w.draw c.settings.theme) := by
  obtain ⟨settings, surroundings, size, live, frames, listeners⟩ := c
  obtain rfl : frames = 1 := hf
  obtain rfl : live = some m := hm
  cases h : m.view.tick? (narrow (frameStep m.lastFrame (surroundings.now + ms))) with
  | none => simp [frame?, drawFrames?, drawFrame?, h]
  | some w => simp [frame?, drawFrames?, drawFrame?, h]

theorem frame?_waiting (hf : c.frames = 0) (ms : R) : c.frame? ms =
    some ({ c with surroundings := { c.surroundings with now := c.surroundings.now + ms } }, []) := by
  obtain ⟨settings, surroundings, size, live, frames, listeners⟩ := c
  obtain rfl : frames = 0 := hf
  rfl

theorem deliver?_of_some (hm : c.live = some m) {s : Snapshot} {g : Graph} (hg : s.graph? = some g) :
    c.deliver? s = some (c.withView m
      { m.view.replace g with notices := s.remarks ++ (m.view.replace g).notices }) := by
  rw [deliver?, hm]
  simp only [s.build_graph?, hg]

/-- A snapshot without a graph changes nothing of a canvas whose map lives. -/
theorem deliver?_of_none (hm : c.live = some m) {s : Snapshot} (hg : s.graph? = none) :
    c.deliver? s = some { value := c, notices := s.remarks } := by
  rw [deliver?, hm]
  simp only [s.build_graph?, hg]

/-- Whatever happens to a living map does at most one operation on its view, and changes nothing else but
what is around it, its size and when it was drawn. -/
theorem happen?_alive (hf : c.frames = 1) (hm : c.live = some m) {h : Happening R}
    {o : Outcome (MapCanvas R S)} (ho : c.happen? h = some o) :
    ∃ surroundings size last u, m.view.performAny? (c.operation? m h) = some u ∧
      o = {
        value := { c with surroundings, size, live := some ⟨u.value, last⟩ }
        events := u.events.filter c.settings.callbacks.takes
        notices := h.remarks ++ u.notices } := by
  cases h with
  | deliver s =>
    cases hg : s.graph? with
    | none =>
      obtain rfl := Option.some.inj ((deliver?_of_none hm hg).symm.trans ho)
      refine ⟨c.surroundings, c.size, m.lastFrame, { value := m.view }, ?_, ?_⟩
      · rw [operation?, hg]
        rfl
      · simp [Happening.remarks, ← hm]
    | some g =>
      obtain rfl := Option.some.inj ((deliver?_of_some hm hg).symm.trans ho)
      refine ⟨c.surroundings, c.size, m.lastFrame, m.view.replace g, ?_, rfl⟩
      rw [operation?, hg]
      rfl
  | input i =>
    simp only [happen?, handle?, perform?, hm] at ho
    obtain ⟨u, hu, rfl⟩ := Option.map_eq_some_iff.mp ho
    exact ⟨c.surroundings, c.size, m.lastFrame, u, hu, rfl⟩
  | resize width height =>
    simp only [happen?, resizeWindow?, setSize, perform?, hm] at ho
    split_ifs at ho with hl
    · obtain rfl := Option.some.inj ho
      refine ⟨_, c.size, m.lastFrame, { value := m.view }, ?_, rfl⟩
      rw [operation?, if_pos hl]
      rfl
    · obtain ⟨u, hu, rfl⟩ := Option.map_eq_some_iff.mp ho
      refine ⟨_, _, m.lastFrame, u, ?_, rfl⟩
      rw [operation?, if_neg hl]
      exact hu
  | frame ms =>
    simp only [happen?, frame?_alive hf hm, Option.map_map] at ho
    obtain ⟨w, hw, rfl⟩ := Option.map_eq_some_iff.mp ho
    refine ⟨_, c.size, _, { value := w }, ?_, rfl⟩
    exact Option.map_eq_some_iff.mpr ⟨w, hw, rfl⟩
  | surround s =>
    obtain rfl := Option.some.inj ho
    refine ⟨s, c.size, m.lastFrame, { value := m.view }, rfl, ?_⟩
    simp [Happening.remarks, ← hm]

/-! ### Canvases that come about -/

/-- A map that does not live asks for nothing. One that lives has one frame asked for, listens to the
window once if it fills it, and has a view that can come about. -/
structure Armed (c : MapCanvas R S) : Prop where
  waiting : c.live = none → c.frames = 0 ∧ c.listeners = []
  alive : ∀ m, c.live = some m → c.frames = 1 ∧
    c.listeners = (if c.settings.fullscreen then ["resize"] else []) ∧ m.view.Reachable

omit [Engine S] in
theorem operation?_fromSnapshot {h : Happening R} {op : Operation R S}
    (hop : c.operation? m h = some op) : op.FromSnapshot := by
  cases h with
  | deliver s =>
    obtain ⟨g, hg, rfl⟩ := Option.map_eq_some_iff.mp hop
    exact Snapshot.ofSnapshot hg
  | input i =>
    obtain rfl := Option.some.inj hop
    cases i <;> trivial
  | resize width height =>
    unfold operation? at hop
    split_ifs at hop
    obtain rfl := Option.some.inj hop
    trivial
  | frame ms =>
    obtain rfl := Option.some.inj hop
    trivial
  | surround s => exact nomatch hop

theorem performAny?_reachable (hv : m.view.Reachable) {h : Happening R} {u : Outcome (View R S)}
    (hu : m.view.performAny? (c.operation? m h) = some u) : u.value.Reachable := by
  obtain ⟨-, rfl⟩ | ⟨op, hop, hu⟩ := View.performAny?_eq_some.mp hu
  · exact hv
  · exact .perform hv (operation?_fromSnapshot hop) hu

/-- A map that does not live comes to life with a snapshot or goes on waiting. -/
theorem happen?_waiting (hc : c.Armed) (hn : c.live = none) {h : Happening R}
    {o : Outcome (MapCanvas R S)} (ho : c.happen? h = some o) :
    (∃ surroundings size, o.value = { c with surroundings, size }) ∨
      ∃ s size u, h = .deliver s ∧
        View.start? (s.graph?.getD .empty) c.settings.tuning c.settings.sizing c.startSize.1
          c.startSize.2 = some u ∧
        o.value = { c with
          size
          live := some ⟨u.value, c.surroundings.now⟩
          frames := 1
          listeners := if c.settings.fullscreen then ["resize"] else [] } := by
  obtain ⟨hf, hl⟩ := hc.waiting hn
  cases h with
  | deliver s =>
    simp only [happen?, deliver?, hn] at ho
    obtain ⟨size, ⟨-, rfl⟩ | ⟨u, hu, rfl⟩⟩ := mount?_eq_some ho
    · exact .inl ⟨c.surroundings, size, rfl⟩
    · exact .inr ⟨s, size, u, rfl, hu, by simp [hf, hl]⟩
  | input i =>
    simp only [happen?, handle?, perform?, hn] at ho
    obtain rfl := Option.some.inj ho
    exact .inl ⟨c.surroundings, c.size, rfl⟩
  | resize width height =>
    have hempty : c.listeners.isEmpty := by rw [hl]; rfl
    simp only [happen?, resizeWindow?, hempty, if_true] at ho
    obtain rfl := Option.some.inj ho
    exact .inl ⟨_, c.size, rfl⟩
  | frame ms =>
    simp only [happen?, frame?_waiting hf, Option.map_some] at ho
    obtain rfl := Option.some.inj ho
    exact .inl ⟨_, c.size, rfl⟩
  | surround s =>
    obtain rfl := Option.some.inj ho
    exact .inl ⟨s, c.size, rfl⟩

theorem Armed.happen (hc : c.Armed) {h : Happening R} {o : Outcome (MapCanvas R S)}
    (ho : c.happen? h = some o) : o.value.Armed := by
  cases hm : c.live with
  | none =>
    obtain ⟨surroundings, size, hv⟩ | ⟨s, size, u, -, hu, hv⟩ := happen?_waiting hc hm ho
    · rw [hv]
      exact ⟨hc.waiting, hc.alive⟩
    · rw [hv]
      refine ⟨(nomatch ·), fun m' hm' => ⟨rfl, rfl, ?_⟩⟩
      obtain rfl := Option.some.inj hm'
      exact .start s.ofSnapshot_getD hu
  | some m =>
    obtain ⟨hf, hl, hv⟩ := hc.alive m hm
    obtain ⟨surroundings, size, last, u, hu, rfl⟩ := happen?_alive hf hm ho
    refine ⟨(nomatch ·), fun m' hm' => ⟨hf, hl, ?_⟩⟩
    obtain rfl := Option.some.inj hm'
    exact performAny?_reachable hv hu

theorem Reachable.armed (hc : c.Reachable) : c.Armed := by
  induction hc with
  | fresh settings surroundings => exact ⟨fun _ => ⟨rfl, rfl⟩, fun _ hm => nomatch hm⟩
  | happen _ ho ih => exact ih.happen ho

end MapCanvas

/-! ### What always goes on -/

omit [Scalar R] in
/-- The turns of the wheel. -/
def Happening.Zooms : Happening R → Prop
  | .input (.wheel _ _) => True
  | _ => False

namespace MapCanvas

variable {c : MapCanvas R S} {m : LiveMap R S}

/-- A frame of a map that lives is always drawn. -/
theorem Armed.frame?_eq (hc : c.Armed) (hm : c.live = some m) (ms : R) :
    ∃ w, m.view.tick? (narrow (frameStep m.lastFrame (c.surroundings.now + ms))) = some w ∧
      c.frame? ms = some ({ c with
          surroundings := { c.surroundings with now := c.surroundings.now + ms }
          live := some ⟨w, c.surroundings.now + ms⟩ }, w.draw c.settings.theme) := by
  obtain ⟨hf, -, hv⟩ := hc.alive m hm
  refine ⟨_, hv.sized.tick?_eq _, ?_⟩
  rw [frame?_alive hf hm, hv.sized.tick?_eq]
  rfl

/-- Only the wheel can end what a living map does. -/
theorem Armed.exists_happen? (hc : c.Armed) (hm : c.live = some m) {h : Happening R}
    (hh : ¬ h.Zooms) : ∃ o, c.happen? h = some o := by
  obtain ⟨-, -, hv⟩ := hc.alive m hm
  cases h with
  | deliver s =>
    cases hg : s.graph? with
    | none => exact ⟨_, deliver?_of_none hm hg⟩
    | some g => exact ⟨_, deliver?_of_some hm hg⟩
  | input i =>
    have hop : ¬ (i.operation c.surroundings : Operation R S).Zooms := by
      cases i <;> simp_all [Input.operation, Operation.Zooms, Happening.Zooms]
    obtain ⟨u, hu⟩ := hv.sized.exists_perform? hop
    rw [happen?, handle?, perform?, hm]
    exact ⟨_, Option.map_eq_some_iff.mpr ⟨u, hu, rfl⟩⟩
  | resize width height =>
    simp only [happen?, resizeWindow?, setSize, perform?, hm]
    split_ifs <;> exact ⟨_, rfl⟩
  | frame ms =>
    obtain ⟨w, -, hw⟩ := hc.frame?_eq hm ms
    rw [happen?, hw]
    exact ⟨_, rfl⟩
  | surround s => exact ⟨_, rfl⟩

theorem Armed.exists_run? (hc : c.Armed) (hm : c.live = some m) {hs : List (Happening R)}
    (hhs : ∀ h ∈ hs, ¬ h.Zooms) : ∃ r, c.run? hs = some r := by
  refine Outcome.exists_goAll? (P := fun c => c.Armed ∧ ∃ m, c.live = some m)
    (fun c h ⟨hc, m, hm⟩ hmem => ?_) ⟨hc, m, hm⟩
  obtain ⟨o, ho⟩ := hc.exists_happen? hm (hhs h hmem)
  refine ⟨o, ho, hc.happen ho, ?_⟩
  obtain ⟨surroundings, size, last, u, -, rfl⟩ := happen?_alive (hc.alive m hm).1 hm ho
  exact ⟨_, rfl⟩

/-- In exact numbers, a canvas of standard settings comes to life with any snapshot. -/
theorem exists_delivered [Precision ℝ S] (s : Snapshot) :
    ∃ (c : MapCanvas ℝ S) (o : Outcome (MapCanvas ℝ S)) (m : LiveMap ℝ S), c.Reachable ∧
      c.live = none ∧ c.deliver? s = some o ∧ o.value.live = some m := by
  let settings : MapSettings ℝ := ⟨.standard, .standard, .standard, {}, true, none, none⟩
  let surroundings : Surroundings ℝ := ⟨some 0, some 0, none, .origin, true, 0⟩
  obtain ⟨u, hu, -⟩ := View.exists_standard (S := S) (s.graph?.getD .empty)
  obtain ⟨o, ho, hm⟩ := exists_mount? (c := .fresh settings surroundings) rfl hu
  exact ⟨.fresh settings surroundings, o, _, .fresh _ _, rfl, ho, hm⟩

end MapCanvas

end TunnelMap
