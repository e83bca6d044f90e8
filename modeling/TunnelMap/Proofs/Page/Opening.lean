import Mathlib
import TunnelMap.Page.Site
import TunnelMap.Proofs.Graph.Reorder
import TunnelMap.Proofs.Page.Delivery

/-! How the page comes up. Whatever stands in its two scripts, it opens: each of them is there and can be
read, is there and cannot be read, or is not there, and what the one comes to does not depend on the other.
A snapshot that can be read and has no graph is another matter, which the canvas settles by itself. -/

namespace TunnelMap

/-! ### Scripts -/

/-- What a script of the page comes to. -/
inductive Script (α : Type) where
  | absent
  /-- The text is not what it should be. -/
  | garbled (error : ReadError)
  | holds (a : α)

namespace Script

variable {α : Type} {read : Draft → Reads α} {elements : List (String × PageElement)}
  {id : String}

def value? : Script α → Option α
  | .holds a => some a
  | _ => none

/-- What there is to warn of. -/
def warnings (id : String) : Script α → List Notice
  | .garbled e => [.unreadable id e]
  | _ => []

/-- The script with an id. -/
def find (read : Draft → Reads α) (elements : List (String × PageElement)) (id : String) :
    Script α :=
  match Site.script? elements id with
  | none => .absent
  | some text =>
    match readText read text with
    | .ok a => .holds a
    | .error e => .garbled e

theorem find_eq_absent : find read elements id = .absent ↔ Site.script? elements id = none := by
  unfold find
  cases Site.script? elements id with
  | none => simp
  | some text => cases h : readText read text <;> simp [h]

theorem find_eq_garbled {e : ReadError} : find read elements id = .garbled e ↔
    ∃ text, Site.script? elements id = some text ∧ readText read text = .error e := by
  unfold find
  cases Site.script? elements id with
  | none => simp
  | some text => cases h : readText read text <;> simp [h]

theorem find_eq_holds {a : α} : find read elements id = .holds a ↔
    ∃ text, Site.script? elements id = some text ∧ readText read text = .ok a := by
  unfold find
  cases Site.script? elements id with
  | none => simp
  | some text => cases h : readText read text <;> simp [h]

theorem load?_eq : Site.load? read elements id =
    ((find read elements id).value?, (find read elements id).warnings id) := by
  unfold Site.load? find
  cases Site.script? elements id with
  | none => rfl
  | some text =>
    simp only
    cases readText read text <;> rfl

end Script

/-! ### The log -/

namespace Notice

/-- The counts of a snapshot that was read. -/
def loaded? : Notice → Option (Nat × Nat)
  | .snapshotLoaded nodes edges => some (nodes, edges)
  | _ => none

/-- The warnings in a log. -/
def warnings (notices : List Notice) : List Notice := notices.filter fun n => n.level = .warn

/-- Neither a warning nor the counts of a snapshot. -/
structure Aside (n : Notice) : Prop where
  level : n.level ≠ .warn
  loaded : n.loaded? = none

theorem Aside.of_debug {n : Notice} (h : n.level = .debug) : n.Aside where
  level := ne_of_eq_of_ne h nofun
  loaded := by
    cases n with
    | snapshotLoaded => cases h
    | _ => rfl

@[simp] theorem warnings_append (xs ys : List Notice) :
    warnings (xs ++ ys) = warnings xs ++ warnings ys :=
  List.filter_append ..

variable {notices : List Notice}

theorem warnings_eq_nil (h : ∀ n ∈ notices, n.Aside) : warnings notices = [] := by
  simpa [warnings] using fun n hn => (h n hn).level

theorem loaded_eq_nil (h : ∀ n ∈ notices, n.Aside) : notices.filterMap loaded? = [] :=
  List.filterMap_eq_nil_iff.mpr fun n hn => (h n hn).loaded

end Notice

namespace Snapshot

/-- Two nodes have one id, or two edges whose ends are there. -/
def Repeats (s : Snapshot) : Prop :=
  ¬ (s.nodes.map (·.id)).Nodup ∨ ¬ ((Graph.resolved s.nodes s.edges).map (·.id)).Nodup

theorem repeats_iff {s : Snapshot} : s.Repeats ↔ ∃ e, s.fault? = some e := by
  rw [Repeats, ← not_and_or, ← Graph.exists_build_ok_iff]
  unfold fault? build
  cases (Graph.build s.nodes s.edges).result <;> simp

theorem graph?_of_not_repeats {s : Snapshot} (h : ¬ s.Repeats) :
    (∃ g, s.graph? = some g) ∧ s.complaint? = none := by
  have hfault : s.fault? = none := by
    rw [repeats_iff] at h
    exact Option.eq_none_iff_forall_ne_some.mpr (not_exists.mp h)
  refine ⟨?_, congrArg (Option.map _) hfault⟩
  unfold fault? at hfault
  unfold graph?
  cases hr : s.build.result with
  | ok g => exact ⟨g, rfl⟩
  | error e => rw [hr] at hfault; exact nomatch hfault

theorem graph?_of_repeats {s : Snapshot} (h : s.Repeats) : s.graph? = none ∧
    ∃ e : BuildError, s.complaint? = some ("ERROR topology: rejected snapshot: " ++ e.message) := by
  obtain ⟨e, he⟩ := repeats_iff.mp h
  exact ⟨graph?_of_fault he, e, congrArg (Option.map _) he⟩

theorem remarks_aside (s : Snapshot) : ∀ n ∈ s.remarks, n.Aside := by
  refine List.forall_mem_append.mpr ⟨fun n hn => .of_debug (s.build_level n hn), ?_⟩
  simp only [List.mem_map, forall_exists_index, and_imp]
  rintro _ e - rfl
  exact ⟨nofun, rfl⟩

end Snapshot

theorem View.start?_aside {R S : Type} [Scalar R] [Engine S] [Precision R S] {g : Graph}
    {tuning : Tuning R} {sizing : Sizing R} {width height : R} {o : Outcome (View R S)}
    (h : start? g tuning sizing width height = some o) : ∀ n ∈ o.notices, n.Aside := by
  obtain ⟨sizes, -, ho⟩ := Option.bind_eq_some_iff.mp h
  obtain rfl := Option.some.inj ho
  refine List.forall_mem_append.mpr ⟨fun n hn => .of_debug (tuneNotices_level g n hn), ?_⟩
  exact List.forall_mem_singleton.mpr ⟨nofun, rfl⟩

/-! ### The canvas -/

theorem Sizing.exists_standard_sizesAt?_one :
    ∃ sizes, (standard : Sizing Float).sizesAt? 1 = some sizes :=
  Option.isSome_iff_exists.mp (by decide +kernel)

namespace Site

variable (surroundings : Surroundings Float)

/-- Where the canvas can be drawn on, the map comes to life with any snapshot; one without a graph counts as
empty there. -/
theorem exists_first_drawn (hd : surroundings.drawable = true) (tuning : Tuning Float) (s : Snapshot) :
    ∃ (o : Outcome (MapCanvas Float Float32)) (m : LiveMap Float Float32),
      (MapCanvas.fresh (settings tuning) surroundings).deliver? s = some o ∧
      o.value.settings = settings tuning ∧ o.value.live = some m ∧ m.view.tuning = tuning ∧
      m.view.layout = (Layout.ofGraph m.view.graph tuning).tune tuning m.view.graph ∧
      m.view.graph = s.graph?.getD .empty ∧ (∀ n ∈ o.notices, n.Aside) ∧
      Notice.errorLines o.notices = s.complaint?.toList := by
  let c : MapCanvas Float Float32 := .fresh (settings tuning) surroundings
  obtain ⟨sizes, hsizes⟩ := Sizing.exists_standard_sizesAt?_one
  obtain ⟨u, hu⟩ : ∃ u : Outcome (View Float Float32), View.start? (s.graph?.getD .empty) tuning .standard
      c.startSize.1 c.startSize.2 = some u := by
    unfold View.start?
    exact ⟨_, Option.bind_eq_some_iff.mpr ⟨sizes, hsizes, rfl⟩⟩
  obtain ⟨o, ho, -⟩ := MapCanvas.exists_mount? (c := c) hd hu
  obtain ⟨size, ⟨hundrawn, -⟩ | ⟨u', hu', rfl⟩⟩ := MapCanvas.mount?_eq_some ho
  · exact absurd (hd.symm.trans hundrawn) nofun
  · obtain rfl : u = u' := Option.some.inj (hu.symm.trans hu')
    obtain ⟨sizes', -, hview, -⟩ := View.start?_eq_some hu
    refine ⟨_, _, ho, rfl, rfl, by rw [hview], by rw [hview], by rw [hview],
      List.forall_mem_append.mpr ⟨s.remarks_aside, View.start?_aside hu⟩, ?_⟩
    rw [Notice.errorLines_append, s.errorLines_remarks, Notice.errorLines_eq_nil (View.start?_level hu),
      List.append_nil]

/-- Where it cannot, there is just that to say. -/
theorem exists_first_undrawn (hd : surroundings.drawable = false) (tuning : Tuning Float) (s : Snapshot) :
    ∃ o : Outcome (MapCanvas Float Float32),
      (MapCanvas.fresh (settings tuning) surroundings).deliver? s = some o ∧
      o.value.settings = settings tuning ∧ o.value.live = none ∧ o.notices = [.canvasUnavailable] := by
  change ∃ o, MapCanvas.mount? _ s = some o ∧ _
  unfold MapCanvas.mount?
  exact ⟨_, if_pos (congrArg Bool.not hd), rfl, rfl, rfl⟩

/-! ### The page -/

/-- What the log says before the canvas comes to its turn. -/
def foreword (data : Script Snapshot) (config : Script (Tuning Float)) : List Notice :=
  .loggingStarted :: (data.warnings "topology-data" ++
    data.value?.toList.map (fun s => .snapshotLoaded s.nodes.length s.edges.length) ++
    config.warnings "topology-config")

section Foreword

variable (data : Script Snapshot) (config : Script (Tuning Float))

theorem warnings_foreword : Notice.warnings (foreword data config) =
    data.warnings "topology-data" ++ config.warnings "topology-config" := by
  cases data <;> cases config <;> rfl

theorem loaded_foreword : (foreword data config).filterMap Notice.loaded? =
    data.value?.toList.map fun s => (s.nodes.length, s.edges.length) := by
  cases data <;> cases config <;> rfl

theorem errorLines_foreword : Notice.errorLines (foreword data config) = [] := by
  cases data <;> cases config <;> rfl

end Foreword

/-- The page opens if its canvas takes what its scripts come to. -/
theorem open?_eq (elements : List (String × PageElement)) :
    let data := Script.find Snapshot.read elements "topology-data"
    let config := Script.find Tuning.read elements "topology-config"
    open? surroundings elements =
      ((MapCanvas.fresh (settings (config.value?.getD .standard)) surroundings).deliver?
        (data.value?.getD {})).map fun o => (⟨o.value, none⟩, foreword data config ++ o.notices) := by
  unfold open? loadSnapshot loadTuning
  rw [Script.load?_eq, Script.load?_eq]
  dsimp only
  rw [Option.map_eq_bind]
  cases Script.find Snapshot.read elements "topology-data" <;> rfl

/-- Whatever stands in the two scripts, the page opens, with the snapshot and the tuning that they hold or
else with the empty and the standard one. -/
theorem open?_settled (elements : List (String × PageElement)) :
    let data := Script.find Snapshot.read elements "topology-data"
    let config := Script.find Tuning.read elements "topology-config"
    let snapshot := data.value?.getD {}
    let tuning := config.value?.getD .standard
    ∃ site notices, open? surroundings elements = some (site, notices) ∧
      site.map.settings = settings tuning ∧
      Notice.warnings notices = data.warnings "topology-data" ++ config.warnings "topology-config" ∧
      notices.filterMap Notice.loaded? =
        data.value?.toList.map (fun s => (s.nodes.length, s.edges.length)) ∧
      (surroundings.drawable = true → ∃ m, site.map.live = some m ∧ m.view.tuning = tuning ∧
        m.view.layout = (Layout.ofGraph m.view.graph tuning).tune tuning m.view.graph ∧
        (¬ snapshot.Repeats → snapshot.graph? = some m.view.graph ∧ Notice.errorLines notices = []) ∧
        (snapshot.Repeats → m.view.graph = .empty ∧ ∃ e : BuildError,
          Notice.errorLines notices = ["ERROR topology: rejected snapshot: " ++ e.message])) ∧
      (surroundings.drawable = false → site.map.live = none ∧
        Notice.errorLines notices = [Notice.canvasUnavailable.line]) := by
  intro data config snapshot tuning
  have hopen := open?_eq surroundings elements
  cases hd : surroundings.drawable with
  | false =>
    obtain ⟨o, ho, hsettings, hlive, hnotices⟩ := exists_first_undrawn surroundings hd tuning snapshot
    refine ⟨⟨o.value, none⟩, foreword data config ++ o.notices, ?_, hsettings, ?_, ?_, nofun,
      fun _ => ⟨hlive, ?_⟩⟩
    · rw [hopen, ho]
      rfl
    · rw [Notice.warnings_append, warnings_foreword, hnotices]
      exact List.append_nil _
    · rw [List.filterMap_append, loaded_foreword, hnotices]
      exact List.append_nil _
    · rw [Notice.errorLines_append, errorLines_foreword, hnotices]
      rfl
  | true =>
    obtain ⟨o, m, ho, hsettings, hlive, htuning, hlayout, hgraph, haside, herrors⟩ :=
      exists_first_drawn surroundings hd tuning snapshot
    have hlines : Notice.errorLines (foreword data config ++ o.notices) = snapshot.complaint?.toList := by
      rw [Notice.errorLines_append, errorLines_foreword, herrors, List.nil_append]
    refine ⟨⟨o.value, none⟩, foreword data config ++ o.notices, ?_, hsettings, ?_, ?_,
      fun _ => ⟨m, hlive, htuning, hlayout, fun hsound => ?_, fun hrepeats => ?_⟩, nofun⟩
    · rw [hopen, ho]
      rfl
    · rw [Notice.warnings_append, warnings_foreword, Notice.warnings_eq_nil haside, List.append_nil]
    · rw [List.filterMap_append, loaded_foreword, Notice.loaded_eq_nil haside, List.append_nil]
    · obtain ⟨⟨g, hg⟩, hcomplaint⟩ := Snapshot.graph?_of_not_repeats hsound
      exact ⟨by rw [hgraph, hg, Option.getD_some], by rw [hlines, hcomplaint, Option.toList_none]⟩
    · obtain ⟨hg, e, hcomplaint⟩ := Snapshot.graph?_of_repeats hrepeats
      exact ⟨by rw [hgraph, hg, Option.getD_none], e, by rw [hlines, hcomplaint, Option.toList_some]⟩

/-- Two nodes have one id, and the tuning is no text of JSON. -/
theorem open?_settled_with_twins :
    let node : NodeEntry := ⟨⟨"a"⟩, .host, {}⟩
    let twin := "\x7b\"id\":\"a\",\"kind\":\"host\"\x7d"
    let text := "\x7b\"nodes\":[" ++ twin ++ "," ++ twin ++ "]\x7d"
    let elements := [("topology-data", PageElement.mk true text), ("topology-config", ⟨true, "none"⟩)]
    let surroundings : Surroundings Float := ⟨none, none, none, .origin, true, 0⟩
    Script.find Snapshot.read elements "topology-data" = .holds ⟨[node, node], []⟩ ∧
    Script.find Tuning.read elements "topology-config" = .garbled (.text .malformed) ∧
    ∃ site notices m, open? surroundings elements = some (site, notices) ∧
      Notice.warnings notices = [.unreadable "topology-config" (.text .malformed)] ∧
      notices.filterMap Notice.loaded? = [(2, 0)] ∧
      site.map.live = some m ∧ m.view.tuning = .standard ∧ m.view.graph = .empty ∧
      (Notice.errorLines notices).length = 1 := by
  intro node twin text elements surroundings
  have hdata : Script.find Snapshot.read elements "topology-data" = .holds ⟨[node, node], []⟩ :=
    Script.find_eq_holds.mpr ⟨text, rfl, by cbv⟩
  have hconfig : Script.find Tuning.read elements "topology-config" = .garbled (.text .malformed) := by
    refine Script.find_eq_garbled.mpr ⟨"none", rfl, ?_⟩
    have hdraft : Draft.ofText "none" = (.broken (Draft.wordBreak true .malformed), true) := by cbv
    rw [readText, hdraft]
    rfl
  obtain ⟨site, notices, hopen, -, hwarnings, hloaded, hdrawn, -⟩ := open?_settled surroundings elements
  obtain ⟨m, hm, htuning, -, -, hrepeats⟩ := hdrawn rfl
  rw [hdata, hconfig] at hwarnings
  rw [hdata] at hloaded hrepeats
  rw [hconfig] at htuning
  obtain ⟨hgraph, e, herror⟩ := hrepeats (.inl (by decide))
  exact ⟨hdata, hconfig, site, notices, m, hopen, hwarnings, hloaded, hm, htuning, hgraph,
    congrArg List.length herror⟩

set_option maxRecDepth 2048 in
/-- Two edges have one id, but they lead nowhere: the map shows the node, and there is nothing to complain
of. -/
theorem open?_with_stray_twins :
    let twin := "\x7b\"id\":\"e\",\"source\":\"a\",\"target\":\"b\"\x7d"
    let text := "\x7b\"nodes\":[\x7b\"id\":\"a\",\"kind\":\"host\"\x7d],\"edges\":[" ++
      twin ++ "," ++ twin ++ "]\x7d"
    let elements := [("topology-data", PageElement.mk true text)]
    let surroundings : Surroundings Float := ⟨none, none, none, .origin, true, 0⟩
    let edge : EdgeEntry := ⟨⟨"e"⟩, ⟨"a"⟩, ⟨"b"⟩, none, {}⟩
    let s : Snapshot := ⟨[⟨⟨"a"⟩, .host, {}⟩], [edge, edge]⟩
    Script.find Snapshot.read elements "topology-data" = .holds s ∧ ¬ (s.edges.map (·.id)).Nodup ∧
      ∃ site notices m, open? surroundings elements = some (site, notices) ∧
        site.map.live = some m ∧ m.view.graph ≠ .empty ∧ Notice.errorLines notices = [] := by
  intro twin text elements surroundings edge s
  have hdata : Script.find Snapshot.read elements "topology-data" = .holds s :=
    Script.find_eq_holds.mpr ⟨text, rfl, by cbv⟩
  have hconfig : Script.find Tuning.read elements "topology-config" = .absent :=
    Script.find_eq_absent.mpr rfl
  obtain ⟨o, m, ho, -, hlive, -, -, hgraph, -, herrors⟩ :=
    exists_first_drawn surroundings rfl .standard s
  have hsound : ¬ s.Repeats := not_or.mpr ⟨by decide, by decide⟩
  refine ⟨hdata, by decide, ⟨o.value, none⟩, foreword (.holds s) .absent ++ o.notices, m, ?_, hlive, ?_, ?_⟩
  · rw [open?_eq, hdata, hconfig]
    exact congrArg (Option.map _) ho
  · have hnodes : (s.graph?.getD .empty).nodes.length = 1 := by rfl
    rw [hgraph]
    exact fun hempty => absurd (hempty ▸ hnodes) (by decide)
  · rw [Notice.errorLines_append, errorLines_foreword, herrors,
      (Snapshot.graph?_of_not_repeats hsound).2]
    rfl

end Site

end TunnelMap
