import TunnelMap.Proofs.Layout.Orders
import TunnelMap.Proofs.View.Fit

/-! The numbers that shape a layout. A layout is laid out with all its links as tunnels, and another
tuning comes to a layout that was tuned before; but wherever a graph or a tuning comes in, all
orders of the tuning go to the layout of the graph that there is then. So in every view that can
come about, each link and each node has the numbers of the tuning in force and none of another, and
with each graph and each tuning heat comes once. -/

namespace TunnelMap

variable {R S : Type} [Scalar R] [Engine S] [Precision R S]

namespace Layout

omit [Scalar R] [Engine S] [Precision R S] in
/-- Each link has the numbers for the kind of its edge, each node has the charge, and there are no
others. -/
structure Obeys (l : Layout R S) (t : Tuning R) (g : Graph) : Prop where
  spoke : ∀ i e, g.edge? i = some e → e.kind = .spoke → l.linkParams? i = some t.spoke
  peer : ∀ i e, g.edge? i = some e → e.kind = .peer → l.linkParams? i = some t.peer
  charge : ∀ i n, g.node? i = some n → l.charges[i]? = some t.charge
  links : l.links.length = g.edges.length
  charges : l.charges.length = g.nodes.length

namespace Tuned

variable {l : Layout R S} {t : Tuning R} {g : Graph} (h : l.Tuned t g)

include h

omit [Scalar R] [Engine S] [Precision R S] in
theorem linkParams?_eq {i : EdgeIdx} {e : Edge} (he : g.edge? i = some e) :
    l.linkParams? i = some (t.linkFor e) := by
  have hedge : g.edges[i]? = some e := he
  rw [linkParams?, ← List.getElem?_map, h.params, List.getElem?_map, hedge, Option.map_some]

omit [Scalar R] [Engine S] [Precision R S] in
theorem obeys : l.Obeys t g where
  spoke i e he hk := by rw [h.linkParams?_eq he, Tuning.linkFor, hk]
  peer i e he hk := by rw [h.linkParams?_eq he, Tuning.linkFor, hk]
  charge i n hn := by
    obtain ⟨hi, -⟩ := List.getElem?_eq_some_iff.mp hn
    rw [h.charges, List.getElem?_replicate, if_pos hi]
  links := by simpa using congrArg List.length h.params
  charges := by rw [h.charges, List.length_replicate]

end Tuned

/-- The orders of a tuning make one layout of another. One of them is to heat, the last, and what
is told speaks of heat once. -/
structure HeatedOnce (l : Layout R S) (t : Tuning R) (g : Graph) (l' : Layout R S)
    (told : List Notice) : Prop where
  orders : ∃ os, t.orders g = os ++ [.reheat] ∧ .reheat ∉ os
  obeyed : l' = (t.orders g).foldl obey l
  alpha : l'.alpha = 1
  told : told.count .reheated = 1

omit [Engine S] [Precision R S] in
theorem heatedOnce_tune (l : Layout R S) (t : Tuning R) (g : Graph) {told : List Notice}
    (h : told.count .reheated = 1) : l.HeatedOnce t g (l.tune t g) told := by
  obtain ⟨links, charges, htune⟩ := l.tune_eq t g
  exact ⟨t.orders_eq_concat g, rfl, by rw [htune], h⟩

end Layout

namespace View

theorem Yields.tuned {v w : View R S} {op : Operation R S} (h : v.Yields op w)
    (hf : v.layout.Fits v.graph) (hv : v.layout.Tuned v.tuning v.graph) :
    w.layout.Tuned w.tuning w.graph := by
  cases h with
  | drag alpha => exact hv.congr (Layout.links_pin ..) (Layout.charges_pin ..)
  | tick dt =>
    obtain ⟨bodies, positions, alpha, hl⟩ := v.layout.tick_eq dt
    exact hv.congr (by rw [hl]) (by rw [hl])
  | retune t => exact hf.tuned_tune t
  | replace g =>
    exact ((Layout.fits_ofGraph g v.tuning).carryOver v.graph v.layout).tuned_tune v.tuning
  | _ => exact hv

theorem Reachable.tuned {v : View R S} (h : v.Reachable) : v.layout.Tuned v.tuning v.graph := by
  induction h with
  | @start g tuning _ _ _ _ _ hs =>
    obtain ⟨sizes, -, hv, -⟩ := start?_eq_some hs
    rw [hv]
    exact (Layout.fits_ofGraph g tuning).tuned_tune tuning
  | perform hv _ ho ih => exact (perform?_yields ho).tuned hv.fits ih

/-- In every view that can come about, the layout has the numbers of the tuning in force for the
graph that there is. Another tuning heats the layout once, and another graph heats its layout once,
which is cold before. -/
theorem Reachable.layout_obeys {v : View R S} (h : v.Reachable) :
    v.layout.Obeys v.tuning v.graph ∧
      (∀ t, v.layout.HeatedOnce t v.graph (v.retune t).value.layout (v.retune t).notices) ∧
      ∀ g, let cold : Layout R S := ((Layout.ofGraph g v.tuning).carryOver g v.graph v.layout).1
        cold.alpha = 0 ∧
          cold.HeatedOnce v.tuning g (v.replace g).value.layout (v.replace g).notices := by
  refine ⟨h.tuned.obeys, fun t => ?_, fun g => ⟨rfl, Layout.heatedOnce_tune _ v.tuning g ?_⟩⟩
  · exact v.layout.heatedOnce_tune t v.graph rfl
  · simp [replace, Layout.tuneNotices]

/-- A host and a tunnel come in after another tuning; each link has its numbers in that tuning. -/
theorem layout_obeys_retuned : ∃ (v : View Float Float32) (c : Tuning Float),
    v.Reachable ∧ v.tuning = c ∧ c.spoke ≠ c.peer ∧
      v.layout.links.map (·.params) = [c.spoke, c.peer] ∧ v.layout.Obeys c v.graph ∧
      v.layout.alpha = 1 := by
  let h : NodeEntry := ⟨⟨"h"⟩, .host, {}⟩
  let a : NodeEntry := ⟨⟨"a"⟩, .interface, {}⟩
  let b : NodeEntry := ⟨⟨"b"⟩, .interface, {}⟩
  let pair : Graph := .ofParts [a.node, b.node] [⟨⟨"t"⟩, 0, 1, .peer, {}⟩]
  let trio : Graph := .ofParts [h.node, a.node, b.node]
    [⟨⟨"s"⟩, 0, 1, .spoke, {}⟩, ⟨⟨"t"⟩, 1, 2, .peer, {}⟩]
  let c : Tuning Float := { Tuning.standard with spoke := ⟨5, 0.5⟩, peer := ⟨80, 0.5⟩, charge := -40 }
  have hpair : pair.OfSnapshot := ⟨⟨[a, b], [⟨⟨"t"⟩, a.id, b.id, none, {}⟩]⟩, rfl⟩
  have htrio : trio.OfSnapshot :=
    ⟨⟨[h, a, b], [⟨⟨"s"⟩, h.id, a.id, none, {}⟩, ⟨⟨"t"⟩, a.id, b.id, none, {}⟩]⟩, rfl⟩
  have hretune : (.retune c : Operation Float Float32).FromSnapshot := trivial
  have hreplace : (.replace trio : Operation Float Float32).FromSnapshot := htrio
  obtain ⟨o, ho⟩ : ∃ o : Outcome (View Float Float32),
      start? pair .standard .standard 800 600 = some o := ⟨_, rfl⟩
  have hretuned : (o.value.retune c).value.Reachable := .perform (.start hpair ho) hretune rfl
  have hreach : ((o.value.retune c).value.replace trio).value.Reachable :=
    .perform hretuned hreplace rfl
  obtain ⟨-, -, hheated⟩ := hretuned.layout_obeys
  exact ⟨_, c, hreach, rfl, by decide +kernel, rfl, hreach.layout_obeys.1, (hheated trio).2.alpha⟩

end View

end TunnelMap
