import TunnelMap.Proofs.Layout.Rest
import TunnelMap.Proofs.Scalar.Parts

/-! How a link shares a correction between its ends. The share of the target is the number of edges at
the source out of the edges at both ends, so that the end with fewer edges takes more. Both ends of an
edge of a snapshot's graph have the edge itself, and the share is a proper fraction. It is counted when a
layout is laid out, and nothing that is done to the layout later touches it. -/

namespace TunnelMap

namespace Graph.Sound

variable {g : Graph} (h : g.Sound) {e : Edge} (he : e ∈ g.edges)

include h he

/-- An end of an edge has an edge. -/
theorem incident_pos {n : NodeIdx} (hn : e.touches n) : 0 < (g.incident n).length := by
  obtain ⟨i, hi⟩ := List.getElem?_of_mem he
  exact List.length_pos_of_mem (h.mem_incident.mpr ⟨e, hi, hn⟩)

theorem incident_source_pos : 0 < (g.incident e.source).length :=
  h.incident_pos he (Edge.touches_iff.mpr (.inl rfl))

theorem incident_target_pos : 0 < (g.incident e.target).length :=
  h.incident_pos he (Edge.touches_iff.mpr (.inr rfl))

end Graph.Sound

/-- What a link has from its edge and keeps whatever numbers it is told. -/
def Link.tie {R : Type} (k : Link R) : NodeIdx × NodeIdx × R := (k.source, k.target, k.bias)

namespace Layout

variable {R S : Type} [Scalar R]

/-- The share of a correction of an edge that falls to the target. -/
def share (g : Graph) (e : Edge) : R :=
  Scalar.ofNat (g.incident e.source).length /
    (Scalar.ofNat (g.incident e.source).length + Scalar.ofNat (g.incident e.target).length)

/-- A layout with a place and a pin for each node of a graph and a link for each edge, whatever numbers
the links were told. -/
structure Linked (l : Layout R S) (g : Graph) : Prop where
  positions : l.positions.length = g.nodes.length
  pinned : l.pinned.length = g.nodes.length
  ties : l.links.map Link.tie = g.edges.map fun e => (e.source, e.target, share g e)

section

variable [Engine S] [Precision R S] {g : Graph}

theorem ties_ofGraph (g : Graph) (t : Tuning R) : (ofGraph g t : Layout R S).links.map Link.tie =
    g.edges.map fun e => (e.source, e.target, share g e) :=
  List.map_map

theorem ties_act (l : Layout R S) (a : Act R S) :
    (l.act g a).links.map Link.tie = l.links.map Link.tie := by
  cases a with
  | tick dt =>
    obtain ⟨bodies, positions, alpha, htick⟩ := l.tick_eq dt
    rw [act, advance_eq, htick]
  | pin i p => rw [act, links_pin]
  | order o =>
    cases o with
    | setLink i params =>
      exact map_modify_of_eq (u := fun k : Link R => { k with params }) (fun _ => rfl) l.links i
    | _ => rfl
  | carryOver previousGraph previous => rfl

theorem ties_run (l : Layout R S) (as : List (Act R S)) :
    (l.run g as).links.map Link.tie = l.links.map Link.tie := by
  induction as generalizing l with
  | nil => rfl
  | cons a as ih => exact (ih (l.act g a)).trans (l.ties_act a)

/-- Whatever is done to a layout that is laid out from a graph, its links stay those of the edges. -/
theorem linked_run (g : Graph) (t : Tuning R) (as : List (Act R S)) :
    ((ofGraph g t).run g as).Linked g := by
  have hfits : ((ofGraph g t).run g as).Fits g := (fits_ofGraph g t).run as
  exact ⟨hfits.staffed.positions, hfits.staffed.pinned, (ties_run _ as).trans (ties_ofGraph g t)⟩

end

theorem Linked.exists_edge {l : Layout R S} {g : Graph} (h : l.Linked g) {k : Link R}
    (hk : k ∈ l.links) :
    ∃ e ∈ g.edges, k.source = e.source ∧ k.target = e.target ∧ k.bias = share g e := by
  have htie : k.tie ∈ g.edges.map fun e => (e.source, e.target, share g e) :=
    h.ties ▸ List.mem_map_of_mem hk
  obtain ⟨e, he, heq⟩ := List.mem_map.mp htie
  obtain ⟨hsource, hrest⟩ := Prod.mk.inj heq
  obtain ⟨htarget, hbias⟩ := Prod.mk.inj hrest
  exact ⟨e, he, hsource.symm, htarget.symm, hbias.symm⟩

/-- The share is a proper fraction. -/
theorem share_mem {g : Graph} (hg : g.Sound) {e : Edge} (he : e ∈ g.edges) :
    (share g e : ℝ) ∈ Set.Ioo 0 1 := by
  have hparts := Scalar.parts_real (hg.incident_source_pos he) (hg.incident_target_pos he)
  have hpos := hparts.pos
  have hlt := hparts.lt_one
  rw [Scalar.zero_real] at hpos
  rw [Scalar.one_real] at hlt
  exact ⟨hpos, hlt⟩

/-- What the source takes, weighted by its edges, is what the target takes, weighted by its own. -/
theorem share_balance {g : Graph} (hg : g.Sound) {e : Edge} (he : e ∈ g.edges) :
    ((g.incident e.source).length : ℝ) * (1 - share g e) = (g.incident e.target).length * share g e := by
  have hs : (0 : ℝ) < (g.incident e.source).length := Nat.cast_pos.mpr (hg.incident_source_pos he)
  have ht : (0 : ℝ) < (g.incident e.target).length := Nat.cast_pos.mpr (hg.incident_target_pos he)
  have hsum := (add_pos hs ht).ne'
  simp only [share, Scalar.ofNat_real]
  field_simp
  ring

end Layout

end TunnelMap
