import TunnelMap.Proofs.View.Exact

/-! What a host knows of the hover that only hears the events. It shows a node and an edge, each
as it was last told, and clicks are nothing to it. After each operation it shows the hover
target and nothing else, and on the way there it never shows two targets at once and is never
told what it shows already. -/

namespace TunnelMap

/-- What a host shows of the hover. -/
structure Host where
  node : Option NodeId
  link : Option EdgeId
  deriving DecidableEq, Repr

namespace Host

/-- The host has heard nothing so far. -/
def fresh : Host := ⟨none, none⟩

def hear (h : Host) : Event → Host
  | .nodeHovered id => { h with node := id }
  | .linkHovered id => { h with link := id }
  | .nodeClicked _ => h

def hearAll (h : Host) (told : List Event) : Host := told.foldl hear h

/-- The host that shows a target and nothing else. -/
def ofTarget : Target → Host
  | .nothing => fresh
  | .node id => ⟨some id, none⟩
  | .edge id => ⟨none, some id⟩

/-- The host does not show two targets at once. -/
def Exclusive (h : Host) : Prop := h.node = none ∨ h.link = none

/-- While the host hears the events, it is exclusive throughout, and each event about what the
pointer rests on changes it. -/
def Hears : Host → List Event → Prop
  | h, [] => h.Exclusive
  | h, e :: told => h.Exclusive ∧ (e.isHover → h.hear e ≠ h) ∧ (h.hear e).Hears told

@[simp] theorem hearAll_nil (h : Host) : h.hearAll [] = h := rfl

@[simp] theorem hearAll_cons (h : Host) (e : Event) (told : List Event) :
    h.hearAll (e :: told) = (h.hear e).hearAll told := rfl

theorem hearAll_append (h : Host) (told more : List Event) :
    h.hearAll (told ++ more) = (h.hearAll told).hearAll more := List.foldl_append

/-! ### Targets -/

theorem ofTarget_exclusive (t : Target) : (ofTarget t).Exclusive := by
  cases t with
  | nothing => exact .inl rfl
  | node id => exact .inr rfl
  | edge id => exact .inl rfl

theorem ofTarget_node {t : Target} {id : NodeId} : (ofTarget t).node = some id ↔ t = .node id := by
  cases t <;> simp [ofTarget, fresh]

theorem ofTarget_link {t : Target} {id : EdgeId} : (ofTarget t).link = some id ↔ t = .edge id := by
  cases t <;> simp [ofTarget, fresh]

/-! ### Events -/

theorem Hears.exclusive {h : Host} {told : List Event} (hh : h.Hears told) : h.Exclusive := by
  cases told with
  | nil => exact hh
  | cons e told => exact hh.1

theorem hears_append {h : Host} {told more : List Event} :
    h.Hears (told ++ more) ↔ h.Hears told ∧ (h.hearAll told).Hears more := by
  induction told generalizing h with
  | nil => exact ⟨fun hh => ⟨hh.exclusive, hh⟩, And.right⟩
  | cons e told ih => simp only [List.cons_append, Hears, ih, hearAll_cons, and_assoc]

/-- An event that is not about what the pointer rests on goes by. -/
theorem hear_of_not_isHover {h : Host} {e : Event} (he : ¬ e.isHover) : h.hear e = h := by
  cases e with
  | nodeHovered id => exact absurd rfl he
  | linkHovered id => exact absurd rfl he
  | nodeClicked id => rfl

theorem hearAll_filter (h : Host) (told : List Event) :
    h.hearAll (told.filter Event.isHover) = h.hearAll told := by
  induction told generalizing h with
  | nil => rfl
  | cons e told ih =>
    by_cases he : e.isHover
    · rw [List.filter_cons_of_pos he, hearAll_cons, ih, hearAll_cons]
    · rw [List.filter_cons_of_neg he, ih, hearAll_cons, hear_of_not_isHover he]

theorem hears_filter {h : Host} {told : List Event} :
    h.Hears (told.filter Event.isHover) ↔ h.Hears told := by
  induction told generalizing h with
  | nil => rfl
  | cons e told ih =>
    by_cases he : e.isHover
    · rw [List.filter_cons_of_pos he, Hears, Hears, ih]
    · rw [List.filter_cons_of_neg he, ih, Hears, hear_of_not_isHover he]
      exact ⟨fun hh => ⟨hh.exclusive, fun h => absurd h he, hh⟩, fun hh => hh.2.2⟩

/-- From target to target, the host goes along. -/
theorem hearAll_passing (old new : Target) :
    (ofTarget old).hearAll (Hover.passing old new) = ofTarget new := by
  unfold Hover.passing
  split_ifs with h
  · rw [h, hearAll_nil]
  · cases old <;> cases new <;> rfl

theorem hears_passing (old new : Target) : (ofTarget old).Hears (Hover.passing old new) := by
  unfold Hover.passing
  split_ifs with h
  · exact ofTarget_exclusive old
  · cases old <;> cases new <;>
      simp_all [ofTarget, fresh, Hover.leaving, Hover.reaching, Hears, hear, Exclusive]

/-- Who has heard the events from the first on shows the target, never showed two at once, and
was never told what it showed already. -/
structure Follows (told : List Event) (t : Target) : Prop where
  node : ∀ id, (fresh.hearAll told).node = some id ↔ t = .node id
  link : ∀ id, (fresh.hearAll told).link = some id ↔ t = .edge id
  exclusive : ∀ before, before <+: told → (fresh.hearAll before).Exclusive
  changes : ∀ before e, before ++ [e] <+: told → e.isHover →
    fresh.hearAll (before ++ [e]) ≠ fresh.hearAll before

theorem Hears.follows {told : List Event} {t : Target} (hh : fresh.Hears told)
    (hs : fresh.hearAll told = ofTarget t) : Follows told t := by
  refine ⟨fun id => hs ▸ ofTarget_node, fun id => hs ▸ ofTarget_link, ?_, ?_⟩
  · rintro before ⟨rest, rfl⟩
    exact (hears_append.mp hh).2.exclusive
  · rintro before e ⟨rest, rfl⟩ he
    rw [List.append_assoc] at hh
    have hchange : (fresh.hearAll before).hear e ≠ fresh.hearAll before :=
      (hears_append.mp hh).2.2.1 he
    rwa [hearAll_append, hearAll_cons, hearAll_nil]

end Host

variable {R S : Type} [Scalar R] [Engine S] [Precision R S]

namespace Outcome

/-- The events lead a fresh host to the hover target. -/
structure Replays (o : Outcome (View R S)) : Prop where
  settled : o.value.hover.Settled o.value.graph
  hears : Host.fresh.Hears o.events
  hearAll_eq : Host.fresh.hearAll o.events = .ofTarget o.value.hover.target

theorem Replays.start {g : Graph} {tuning : Tuning R} {sizing : Sizing R} {width height : R}
    {o : Outcome (View R S)} (h : View.start? g tuning sizing width height = some o) :
    o.Replays := by
  obtain ⟨sizes, -, hv, he⟩ := View.start?_eq_some h
  constructor
  · rw [hv]
    exact Hover.idle_settled g
  · rw [he]
    exact .inl rfl
  · rw [hv, he]
    rfl

/-- One more operation takes the host from the old target to the new one. -/
theorem Replays.perform {o r : Outcome (View R S)} {op : Operation R S} (ho : o.Replays)
    (h : o.perform? op = some r) : r.Replays := by
  obtain ⟨next, hn, rfl⟩ := perform?_eq_some.mp h
  obtain ⟨-, ht⟩ := View.perform?_turns ho.settled hn
  refine ⟨ht.settled, ?_, ?_⟩
  · have hnext : (Host.ofTarget o.value.hover.target).Hears next.events := by
      rw [← Host.hears_filter, ht.told_eq]
      exact Host.hears_passing _ _
    exact Host.hears_append.mpr ⟨ho.hears, ho.hearAll_eq ▸ hnext⟩
  · rw [Host.hearAll_append, ho.hearAll_eq, ← Host.hearAll_filter, ht.told_eq]
    exact Host.hearAll_passing _ _

theorem Replays.run {o r : Outcome (View R S)} {ops : List (Operation R S)} (ho : o.Replays)
    (h : o.run? ops = some r) : r.Replays :=
  run?_induct (fun _ _ _ hp _ hstep => hp.perform hstep) ho h

end Outcome

namespace View

/-- While the target stays, nothing is told of it. -/
theorem not_isHover_of_target_eq {v : View R S} {op : Operation R S} {o : Outcome (View R S)}
    (hs : v.hover.Settled v.graph) (h : v.perform? op = some o)
    (ht : o.value.hover.target = v.hover.target) {e : Event} (he : e ∈ o.events) : ¬ e.isHover := by
  intro hhover
  have hmem : e ∈ o.events.filter Event.isHover := List.mem_filter.mpr ⟨he, hhover⟩
  rw [(perform?_turns hs h).2.told_eq, ht, Hover.passing, if_pos rfl] at hmem
  exact List.not_mem_nil hmem

/-- However a run goes, its events alone tell a host what the pointer rests on, and an operation
that leaves the target as it was tells nothing of it. -/
theorem hover_follows {g : Graph} {tuning : Tuning R} {sizing : Sizing R} {width height : R}
    {o r : Outcome (View R S)} {ops : List (Operation R S)}
    (ho : start? g tuning sizing width height = some o) (hr : o.run? ops = some r) :
    Host.Follows r.events r.value.hover.target ∧
      ∀ op next, r.value.perform? op = some next →
        next.value.hover.target = r.value.hover.target → ∀ e ∈ next.events, ¬ e.isHover := by
  have hrun : r.Replays := (Outcome.Replays.start ho).run hr
  exact ⟨hrun.hears.follows hrun.hearAll_eq,
    fun _ _ hn ht _ he => not_isHover_of_target_eq hrun.settled hn ht he⟩

/-- A node that goes while the pointer rests on it is told to have been left. -/
theorem hover_follows_removal : ∃ r : Outcome (View ℝ ℝ),
    r.events = [.nodeHovered (some ⟨"a"⟩), .nodeHovered none] ∧
      Host.Follows r.events r.value.hover.target := by
  obtain ⟨o, p, ho, hv, he⟩ := exists_rest (S := ℝ) ⟨⟨"a"⟩, .interface, {}⟩
  obtain ⟨-, -, -, hfirst⟩ := start?_eq_some ho
  have hr : o.run? [.point p, .replace .empty] = some _ := rfl
  refine ⟨_, ?_, (hover_follows ho hr).1⟩
  change o.events ++ (o.value.point p).events ++
    ((o.value.point p).value.hover.rebind .empty).2 = _
  rw [hfirst, he, hv]
  rfl

end View

end TunnelMap
