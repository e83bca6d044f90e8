import TunnelMap.Proofs.Page.Run

/-! Snapshots that a canvas is given. A living map always shows the graph of the last one that has a graph.
One that has none changes nothing at all, tells nothing and leaves one line of an error in the log; that
there is no other such line is since nothing else that is said of a living map is an error. -/

namespace TunnelMap

variable {R S : Type} [Scalar R] [Engine S] [Precision R S]

/-! ### Errors in the log -/

namespace Notice

/-- The lines of errors in a log. -/
def errorLines (notices : List Notice) : List String :=
  (notices.filter fun n => n.level = .error).map line

@[simp] theorem errorLines_append (xs ys : List Notice) :
    errorLines (xs ++ ys) = errorLines xs ++ errorLines ys := by
  simp [errorLines]

theorem errorLines_eq_nil {notices : List Notice} (h : ∀ n ∈ notices, n.level ≠ .error) :
    errorLines notices = [] := by
  simpa [errorLines] using h

theorem ne_error_of_debug {notices : List Notice} (h : ∀ n ∈ notices, n.level = .debug) :
    ∀ n ∈ notices, n.level ≠ .error :=
  fun n hn => ne_of_eq_of_ne (h n hn) nofun

end Notice

/-- Building says nothing of its own above the level of details. -/
theorem Graph.takeEdges_level (nodes : Roll NodeId Node) (raws : List EdgeEntry) (t : Taken)
    (ht : ∀ n ∈ t.notices, n.level = .debug) :
    ∀ n ∈ (takeEdges nodes raws t).1.notices, n.level = .debug := by
  induction raws generalizing t with
  | nil => exact ht
  | cons raw rest ih =>
    unfold takeEdges
    split
    · split_ifs
      · exact ht
      · refine ih _ fun n hn => ?_
        unfold Taken.add at hn
        dsimp only at hn
        split_ifs at hn
        · obtain hn | hn := List.mem_append.mp hn
          · exact ht n hn
          · obtain rfl := List.mem_singleton.mp hn
            rfl
        · exact ht n hn
    · exact ih _ ht

namespace Snapshot

theorem build_level (s : Snapshot) : ∀ n ∈ s.build.notices, n.level = .debug := by
  unfold build Graph.build
  split
  · exact fun n hn => nomatch hn
  · next nodes _ =>
    have htaken := Graph.takeEdges_level nodes s.edges ⟨.empty, 0, []⟩ fun n hn => nomatch hn
    split
    · next h => rwa [h] at htaken
    · next h =>
      rw [h] at htaken
      intro n hn
      obtain hn | hn := List.mem_append.mp hn
      · exact htaken n hn
      · split_ifs at hn
        · exact nomatch hn
        · obtain rfl := List.mem_singleton.mp hn
          rfl

/-- The line that a snapshot without a graph leaves in the log. -/
def complaint? (s : Snapshot) : Option String :=
  s.fault?.map fun e => "ERROR topology: rejected snapshot: " ++ e.message

theorem errorLines_remarks (s : Snapshot) : Notice.errorLines s.remarks = s.complaint?.toList := by
  rw [remarks, Notice.errorLines_append,
    Notice.errorLines_eq_nil (Notice.ne_error_of_debug s.build_level), complaint?]
  cases s.fault? with
  | none => rfl
  | some e => rfl

end Snapshot

namespace View

theorem tuneNotices_level (g : Graph) : ∀ n ∈ Layout.tuneNotices g, n.level = .debug := by
  simp [Layout.tuneNotices, Notice.level]

theorem start?_level {g : Graph} {tuning : Tuning R} {sizing : Sizing R} {width height : R}
    {o : Outcome (View R S)} (h : start? g tuning sizing width height = some o) :
    ∀ n ∈ o.notices, n.level ≠ .error := by
  obtain ⟨sizes, -, ho⟩ := Option.bind_eq_some_iff.mp h
  obtain rfl := Option.some.inj ho
  exact List.forall_mem_append.mpr
    ⟨Notice.ne_error_of_debug (tuneNotices_level g), by simp [Notice.level]⟩

omit [Engine S] in
theorem point_level (v : View R S) (p : Point R) : ∀ n ∈ (v.point p).notices, n.level ≠ .error := by
  unfold point
  split
  · unfold dragTo
    dsimp only
    split
    · split_ifs <;> simp [Notice.level]
    · exact fun n hn => nomatch hn
  · exact fun n hn => nomatch hn

omit [Engine S] [Precision R S] in
theorem lift_level (v : View R S) (p : Point R) : ∀ n ∈ (v.lift p).notices, n.level ≠ .error := by
  dsimp only [lift]
  split
  · split_ifs <;> simp [Notice.level]
  · exact fun n hn => nomatch hn

/-- Nothing that is said of an operation is an error. -/
theorem perform?_level {v : View R S} {op : Operation R S} {o : Outcome (View R S)}
    (h : v.perform? op = some o) : ∀ n ∈ o.notices, n.level ≠ .error := by
  obtain ⟨sizes, rfl⟩ := perform?_after h
  cases op with
  | point p => exact v.point_level p
  | lift p => exact v.lift_level p
  | retune t => exact Notice.ne_error_of_debug (tuneNotices_level v.graph)
  | replace g =>
    exact List.forall_mem_cons.mpr
      ⟨nofun, List.forall_mem_append.mpr
        ⟨Notice.ne_error_of_debug (tuneNotices_level g), by simp [Notice.level]⟩⟩
  | _ => exact fun n hn => nomatch hn

theorem performAny?_level {v : View R S} {op : Option (Operation R S)} {o : Outcome (View R S)}
    (h : v.performAny? op = some o) : ∀ n ∈ o.notices, n.level ≠ .error := by
  obtain ⟨-, rfl⟩ | ⟨op, -, h⟩ := performAny?_eq_some.mp h
  · exact fun n hn => nomatch hn
  · exact perform?_level h

end View

/-! ### The graph in use -/

/-- The graph that an operation brings in. -/
def Operation.graph? : Operation R S → Option Graph
  | .replace g => some g
  | _ => none

theorem View.perform?_graph {v : View R S} {op : Operation R S} {o : Outcome (View R S)}
    (h : v.perform? op = some o) : o.value.graph = op.graph?.getD v.graph := by
  have hyields := perform?_yields h
  obtain ⟨w, events, notices⟩ := o
  cases hyields <;> rfl

/-- The graph of the last of some snapshots that has one, or else the one that there was before. -/
def Graph.latest (g : Graph) (ss : List Snapshot) : Graph :=
  ((ss.filterMap Snapshot.graph?).getLast?).getD g

theorem Graph.latest_cons (g : Graph) (s : Snapshot) (ss : List Snapshot) :
    g.latest (s :: ss) = (s.graph?.getD g).latest ss := by
  unfold latest
  cases hs : s.graph? with
  | none => rw [List.filterMap_cons_none hs, Option.getD_none]
  | some g' =>
    rw [List.filterMap_cons_some hs, List.getLast?_cons, Option.getD_some, Option.getD_some]

namespace Happening

def snapshot? : Happening R → Option Snapshot
  | .deliver s => some s
  | _ => none

/-- The snapshots that are delivered, in order. -/
def delivered (hs : List (Happening R)) : List Snapshot := hs.filterMap snapshot?

omit [Scalar R] in
theorem delivered_cons (h : Happening R) (hs : List (Happening R)) :
    delivered (h :: hs) = h.snapshot?.toList ++ delivered hs := by
  cases hsnap : h.snapshot? <;> simp [delivered, hsnap]

omit [Scalar R] in
theorem latest_delivered_cons (g : Graph) (h : Happening R) (hs : List (Happening R)) :
    g.latest (delivered (h :: hs)) =
      ((h.snapshot?.bind Snapshot.graph?).getD g).latest (delivered hs) := by
  rw [delivered_cons]
  cases h.snapshot? with
  | none => rfl
  | some s => exact g.latest_cons s _

omit [Scalar R] in
theorem errorLines_remarks (h : Happening R) :
    Notice.errorLines h.remarks = h.snapshot?.toList.filterMap Snapshot.complaint? := by
  cases h with
  | deliver s =>
    rw [remarks, s.errorLines_remarks]
    cases hs : s.complaint? <;> simp [snapshot?, hs]
  | _ => rfl

end Happening

namespace MapCanvas

variable {c : MapCanvas R S} {m : LiveMap R S}

omit [Engine S] in
theorem operation?_graph? (h : Happening R) :
    (c.operation? m h).bind Operation.graph? = h.snapshot?.bind Snapshot.graph? := by
  cases h with
  | deliver s => cases hs : s.graph? <;> simp [operation?, Happening.snapshot?, hs, Operation.graph?]
  | input i => cases i <;> rfl
  | resize width height => unfold operation?; split_ifs <;> rfl
  | _ => rfl

/-- A happening leaves a living map its graph, unless it is a snapshot that has one. -/
theorem performAny?_graph {h : Happening R} {u : Outcome (View R S)}
    (hu : m.view.performAny? (c.operation? m h) = some u) :
    u.value.graph = (h.snapshot?.bind Snapshot.graph?).getD m.view.graph := by
  rw [← operation?_graph? (c := c) (m := m)]
  obtain ⟨hop, rfl⟩ | ⟨op, hop, hu⟩ := View.performAny?_eq_some.mp hu
  · rw [hop]
    rfl
  · rw [hop]
    exact View.perform?_graph hu

/-- Whatever happens to a living map, it lives on with the graph of the last snapshot that had one, and
the errors in the log are one for each snapshot that had none. -/
theorem run?_alive {o r : Outcome (MapCanvas R S)} {hs : List (Happening R)} (hc : o.value.Armed)
    {m : LiveMap R S} (hm : o.value.live = some m) (hr : o.goAll? happen? hs = some r) :
    r.value.Armed ∧
    (∃ m', r.value.live = some m' ∧ m'.view.graph = m.view.graph.latest (Happening.delivered hs)) ∧
    Notice.errorLines r.notices =
      Notice.errorLines o.notices ++ (Happening.delivered hs).filterMap Snapshot.complaint? := by
  induction hs generalizing o m with
  | nil =>
    obtain rfl : o = r := by simpa using hr
    exact ⟨hc, ⟨m, hm, rfl⟩, by simp [Happening.delivered]⟩
  | cons h hs ih =>
    obtain ⟨b, hb, hr⟩ := Outcome.goAll?_cons.mp hr
    obtain ⟨next, hnext, rfl⟩ := Outcome.goOn?_eq_some.mp hb
    have harmed : next.value.Armed := hc.happen hnext
    obtain ⟨surroundings, size, last, u, hu, hv⟩ := happen?_alive (hc.alive m hm).1 hm hnext
    have hlive : next.value.live = some ⟨u.value, last⟩ := by rw [hv]
    have hsaid : Notice.errorLines next.notices =
        h.snapshot?.toList.filterMap Snapshot.complaint? := by
      rw [hv, Notice.errorLines_append, h.errorLines_remarks,
        Notice.errorLines_eq_nil (View.performAny?_level hu), List.append_nil]
    obtain ⟨hc', ⟨m', hm', hg⟩, hlines⟩ :=
      ih (o := ⟨next.value, o.events ++ next.events, o.notices ++ next.notices⟩) harmed hlive hr
    refine ⟨hc', ⟨m', hm', ?_⟩, ?_⟩
    · rw [hg, Happening.latest_delivered_cons, performAny?_graph hu]
    · rw [hlines, Notice.errorLines_append, hsaid, Happening.delivered_cons, List.filterMap_append,
        List.append_assoc]

/-- A map comes to life with a snapshot, and then anything may happen to it. The graph in use is that of the
last snapshot since then that has one, or empty if none has. The errors in the log are one for each that
has none. And where another one that has none is delivered then, that leaves the canvas as it was, with
all of its view, tells nothing and is one error in the log, with the fault. -/
theorem Reachable.delivers (hc : c.Reachable) (hn : c.live = none) {s : Snapshot}
    {o r : Outcome (MapCanvas R S)} {hs : List (Happening R)} (ho : c.deliver? s = some o)
    (hl : o.value.live.isSome) (hr : o.value.run? hs = some r) :
    (∃ m, r.value.live = some m ∧
      m.view.graph = Graph.empty.latest (s :: Happening.delivered hs)) ∧
    o.events = [] ∧
    Notice.errorLines (o.notices ++ r.notices) =
      (s :: Happening.delivered hs).filterMap Snapshot.complaint? ∧
    ∀ s' e, s'.build.result = .error e → ∃ q, r.value.deliver? s' = some q ∧ q.value = r.value ∧
      q.events = [] ∧
      Notice.errorLines q.notices = ["ERROR topology: rejected snapshot: " ++ e.message] := by
  rw [deliver?, hn] at ho
  obtain ⟨size, ⟨-, rfl⟩ | ⟨u, hu, rfl⟩⟩ := mount?_eq_some ho
  · simp [hn] at hl
  · have harmed := hc.armed.happen (h := .deliver s) (by rw [happen?, deliver?, hn]; exact ho)
    obtain ⟨sizes, -, hv, -⟩ := View.start?_eq_some hu
    obtain ⟨-, ⟨m, hm, hg⟩, hlines⟩ := run?_alive (o := ⟨_, [], []⟩) harmed rfl hr
    have hsaid : Notice.errorLines (s.remarks ++ u.notices) = s.complaint?.toList := by
      rw [Notice.errorLines_append, s.errorLines_remarks,
        Notice.errorLines_eq_nil (View.start?_level hu), List.append_nil]
    refine ⟨⟨m, hm, ?_⟩, rfl, ?_, fun s' e he => ?_⟩
    · rw [hg, Graph.latest_cons, hv]
    · rw [Notice.errorLines_append, hsaid, hlines]
      cases hs : s.complaint? <;> simp [hs, Notice.errorLines]
    · have hfault : s'.fault? = some e := by rw [Snapshot.fault?, he]
      refine ⟨_, deliver?_of_none hm (Snapshot.graph?_of_fault hfault), rfl, rfl, ?_⟩
      rw [s'.errorLines_remarks, Snapshot.complaint?, hfault]
      rfl

/-- A snapshot without a graph comes first; one with a graph and the first again follow on frames. -/
theorem delivers_between_rejected : ∃ (s t : Snapshot) (c : MapCanvas ℝ ℝ)
    (o r : Outcome (MapCanvas ℝ ℝ)), c.Reachable ∧ c.deliver? s = some o ∧
      o.value.run? [.frame 16, .deliver t, .input .leave, .deliver s] = some r ∧
      (∃ m, r.value.live = some m ∧ m.view.graph.nodes.map (·.id.text) = ["a"]) ∧
      Notice.errorLines (o.notices ++ r.notices) =
        List.replicate 2 "ERROR topology: rejected snapshot: duplicate node id `a` in snapshot" := by
  let a : NodeEntry := ⟨⟨"a"⟩, .interface, {}⟩
  let twins : Snapshot := ⟨[a, a], []⟩
  let lone : Snapshot := ⟨[a], []⟩
  obtain ⟨c, o, m, hc, hn, ho, hm⟩ := exists_delivered (S := ℝ) twins
  have ho' : c.happen? (.deliver twins) = some o := ho
  let hs : List (Happening ℝ) := [.frame 16, .deliver lone, .input .leave, .deliver twins]
  have hstill : ∀ h ∈ hs, ¬ h.Zooms := by simp [hs, Happening.Zooms]
  obtain ⟨r, hr⟩ := (hc.armed.happen ho').exists_run? hm hstill
  obtain ⟨⟨m', hm', hg⟩, -, hlines, -⟩ := hc.delivers hn ho (by rw [hm]; rfl) hr
  exact ⟨twins, lone, c, o, r, hc, ho, hr, ⟨m', hm', by rw [hg]; rfl⟩, hlines⟩

end MapCanvas

end TunnelMap
