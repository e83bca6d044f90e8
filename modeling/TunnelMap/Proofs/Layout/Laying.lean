import TunnelMap.Proofs.Graph.Turn
import TunnelMap.Proofs.Layout.Bounds
import TunnelMap.Proofs.Layout.Share
import TunnelMap.Proofs.Scalar.Whole

/-! How a graph is laid out, with every division guarded: what is not above nothing divides nothing. Two
counts divide. The place of a node is reckoned by the number of nodes, and it is reckoned only if there is
a node; and the bias of a link by the number of edges at its ends, either of which has the edge itself at
least. So nothing is ever refused, in exact arithmetic and with 64 bits alike. The biases are proper
fractions, halves for loops, and where an edge is turned around its bias turns into the rest of it. -/

namespace TunnelMap

/-- A quotient, unless the divisor is not above nothing. -/
def Scalar.div? {R : Type} [Scalar R] (x y : R) : Option R := if 0 < y then some (x / y) else none

namespace Layout

variable {R S : Type} [Scalar R]

/-! ### Guarded divisions -/

section Guarded

def seed? (count i : Nat) : Option (Point R) := do
  let ring : R := 10 * Scalar.sqrt (Scalar.ofNat (max count 1))
  let angle ← Scalar.div? (Scalar.ofNat i * 2 * Scalar.pi) (Scalar.ofNat count)
  return ⟨ring * Scalar.cos angle, ring * Scalar.sin angle⟩

def linkOf? (t : Tuning R) (g : Graph) (e : Edge) : Option (Link R) := do
  let s : R := Scalar.ofNat (g.incident e.source).length
  let d : R := Scalar.ofNat (g.incident e.target).length
  let bias ← Scalar.div? s (s + d)
  return ⟨e.source, e.target, t.peer, bias⟩

variable [Engine S] [Precision R S]

def ofGraph? (g : Graph) (t : Tuning R) : Option (Layout R S) := do
  let count := g.nodes.length
  let positions ← (List.range count).mapM (seed? count)
  let (handles, bodies) := enlist positions
  let links ← g.edges.mapM (linkOf? t g)
  return {
    bodies
    handles
    links
    charges := List.replicate count t.charge
    pinned := List.replicate count false
    positions
    alpha := 0
    alphaDecay := t.alphaDecay
    alphaMin := t.alphaMin
    damping := narrow t.velocityRetention }

end Guarded

/-- A seed is refused just if there are no nodes. -/
theorem seed?_eq (hR : Scalar.Counting R) (count i : Nat) :
    (seed? count i : Option (Point R)) = if 0 < count then some (seed count i) else none := by
  unfold seed? Scalar.div?
  by_cases h : 0 < count
  · rw [if_pos h, if_pos ((hR.pos_iff count).mpr h)]
    rfl
  · rw [if_neg h, if_neg (mt (hR.pos_iff count).mp h)]
    rfl

theorem linkOf?_eq (hR : Scalar.Counting R) (t : Tuning R) {g : Graph} (hg : g.Sound) {e : Edge}
    (he : e ∈ g.edges) : linkOf? t g e = some (linkOf t g e) := by
  have hwhole := hR.add_pos _ _ (hg.incident_source_pos he) (hg.incident_target_pos he)
  simp only [linkOf?, Scalar.div?, if_pos hwhole]
  rfl

variable [Engine S] [Precision R S]

theorem ofGraph?_eq (hR : Scalar.Counting R) {g : Graph} (hg : g.Sound) (t : Tuning R) :
    ofGraph? g t = some (ofGraph g t : Layout R S) := by
  have hseeds : (List.range g.nodes.length).mapM (seed? g.nodes.length) =
      some ((List.range g.nodes.length).map (seed g.nodes.length : Nat → Point R)) :=
    mapM_eq_map fun i hi => by
      rw [seed?_eq hR, if_pos (Nat.zero_lt_of_lt (List.mem_range.mp hi))]
  have hlinks : g.edges.mapM (linkOf? t g) = some (g.edges.map (linkOf t g)) :=
    mapM_eq_map fun e he => linkOf?_eq hR t hg he
  simp only [ofGraph?, hseeds, hlinks]
  rfl

/-! ### Fair links -/

/-- A link of an edge, with the share of the edges at its ends that is at its source. -/
structure Shared (g : Graph) (e : Edge) (k : Link R) : Prop where
  source : k.source = e.source
  target : k.target = e.target
  whole_pos : (0 : R) < Scalar.ofNat (g.incident e.source).length +
    Scalar.ofNat (g.incident e.target).length
  bias_eq : k.bias = Scalar.ofNat (g.incident e.source).length /
    (Scalar.ofNat (g.incident e.source).length + Scalar.ofNat (g.incident e.target).length)
  bias_pos : 0 < k.bias
  bias_lt_one : k.bias < 1
  loop : e.source = e.target → k.bias = 1 / 2

/-- Links that run opposite ways and share corrections alike. -/
structure Opposite (k k' : Link R) : Prop where
  source : k'.source = k.target
  target : k'.target = k.source
  bias_add : k.bias + k'.bias = 1

/-- The links of a graph of a snapshot share corrections fairly, also when edges are turned around. -/
structure Fair (R S : Type) [Scalar R] [Engine S] [Precision R S] (s : Snapshot) (g : Graph) : Prop where
  shared : ∀ t, List.Forall₂ (Shared g) g.edges (ofGraph g t : Layout R S).links
  opposite : ∀ t, ∀ k ∈ (ofGraph g t : Layout R S).links, ∀ k' ∈ (ofGraph g t : Layout R S).links,
    k'.source = k.target → k'.target = k.source → k.bias + k'.bias = 1
  turned : ∀ p, ∃ g', (s.turn p).build.result = .ok g' ∧ ∀ t t' i e k, g.edge? i = some e →
    (ofGraph g t : Layout R S).links[i]? = some k →
    ∃ k', (ofGraph g' t' : Layout R S).links[i]? = some k' ∧
      if p e.id then Opposite k k' else k'.tie = k.tie

theorem shared_linkOf {g : Graph} {e : Edge}
    (h : Scalar.Parts R (g.incident e.source).length (g.incident e.target).length) (t : Tuning R) :
    Shared g e (linkOf t g e) where
  source := rfl
  target := rfl
  whole_pos := h.whole_pos
  bias_eq := rfl
  bias_pos := h.pos
  bias_lt_one := h.lt_one
  loop hloop := h.halves (by rw [hloop])

theorem opposite_linkOf {g g' : Graph} {e e' : Edge}
    (h : Scalar.Parts R (g.incident e.source).length (g.incident e.target).length)
    (hsource : e'.source = e.target) (htarget : e'.target = e.source)
    (hincident : ∀ n, g'.incident n = g.incident n) (t t' : Tuning R) :
    Opposite (linkOf t g e) (linkOf t' g' e') where
  source := hsource
  target := htarget
  bias_add := by
    simp only [linkOf, hsource, htarget, hincident]
    exact h.add

/-- The link of an edge that may be turned around. -/
theorem linkOf_turn {g : Graph} (hg : g.OfSnapshot) {e : Edge}
    (h : Scalar.Parts R (g.incident e.source).length (g.incident e.target).length) (p : EdgeId → Bool)
    (t t' : Tuning R) : if p e.id then Opposite (linkOf t g e) (linkOf t' (g.turn p) (e.turn p)) else
      (linkOf t' (g.turn p) (e.turn p)).tie = (linkOf t g e).tie := by
  unfold Edge.turn
  split_ifs
  · exact opposite_linkOf h rfl rfl (hg.incident_turn p) t t'
  · simp only [Link.tie, linkOf, hg.incident_turn]

theorem fair {s : Snapshot} {g : Graph} (hbuild : s.build.result = .ok g)
    (h : ∀ e ∈ g.edges, Scalar.Parts R (g.incident e.source).length (g.incident e.target).length) :
    Fair R S s g where
  shared t := List.forall₂_map_right_iff.mpr (List.forall₂_same.mpr fun e he => shared_linkOf (h e he) t)
  opposite t k hk k' hk' hsource htarget := by
    obtain ⟨e, he, rfl⟩ := List.mem_map.mp hk
    obtain ⟨e', -, rfl⟩ := List.mem_map.mp hk'
    exact (opposite_linkOf (h e he) hsource htarget (fun _ => rfl) t t).bias_add
  turned p := by
    refine ⟨g.turn p, Graph.build_turn hbuild p, fun t t' i e k hi hk => ?_⟩
    have hlink : (g.edges.map (linkOf t g))[i]? = some k := hk
    obtain rfl : linkOf t g e = k := by
      rw [List.getElem?_map, show g.edges[i]? = some e from hi] at hlink
      exact Option.some.inj hlink
    refine ⟨linkOf t' (g.turn p) (e.turn p), ?_, ?_⟩
    · change ((g.edges.map (Edge.turn p)).map (linkOf t' (g.turn p)))[i]? = _
      rw [List.getElem?_map, List.getElem?_map, show g.edges[i]? = some e from hi]
      rfl
    · exact linkOf_turn ⟨s, hbuild⟩ (h e (List.mem_of_getElem? hi)) p t t'

end Layout

/-! ### Laying out -/

namespace Graph

theorem OfSnapshot.length_incident_le {g : Graph} (h : g.OfSnapshot) (n : NodeIdx) :
    (g.incident n).length ≤ g.edges.length := by
  rw [h.sound.incident_eq]
  split_ifs
  · rw [List.length_map]
    exact (List.length_filter_le _ _).trans_eq List.length_zipIdx
  · exact Nat.zero_le _

end Graph

namespace Layout

/-- No division is refused while a graph is laid out: seeds are asked for only if there are nodes. -/
structure Granted (R S : Type) [Scalar R] [Engine S] [Precision R S] (g : Graph) : Prop where
  seeds : ∀ i, (seed? g.nodes.length i : Option (Point R)).isSome ↔ 0 < g.nodes.length
  laid : ∀ t, ofGraph? g t = some (ofGraph g t : Layout R S)

theorem granted {R S : Type} [Scalar R] [Engine S] [Precision R S] (hR : Scalar.Counting R)
    {g : Graph} (hg : g.Sound) : Granted R S g where
  seeds i := by
    rw [seed?_eq hR]
    split_ifs with h
    · exact iff_of_true rfl h
    · exact iff_of_false Bool.false_ne_true h
  laid := ofGraph?_eq hR hg

/-- A graph of a snapshot is laid out without a division by nothing, since both ends of each edge have an edge,
and its links share corrections fairly: always in exact arithmetic, and with 64 bits as long as counts of
edges keep all their bits. -/
theorem laid_out_fairly {s : Snapshot} {g : Graph} (h : s.build.result = .ok g) :
    (∀ e ∈ g.edges, 0 < (g.incident e.source).length ∧ 0 < (g.incident e.target).length) ∧
      Granted ℝ ℝ g ∧ Granted Float Float32 g ∧ Fair ℝ ℝ s g ∧
      (g.edges.length ≤ 2 ^ 52 → Fair Float Float32 s g) := by
  have hg : g.OfSnapshot := ⟨s, h⟩
  have hends (e : Edge) (he : e ∈ g.edges) :
      0 < (g.incident e.source).length ∧ 0 < (g.incident e.target).length :=
    ⟨hg.sound.incident_source_pos he, hg.sound.incident_target_pos he⟩
  refine ⟨hends, granted Scalar.counting_real hg.sound, granted Binary.counting hg.sound,
    fair h fun e he => Scalar.parts_real (hends e he).1 (hends e he).2, fun hfew => ?_⟩
  refine fair h fun e he => Binary.parts (hends e he).1 (hends e he).2 ?_
  have hsource := hg.length_incident_le e.source
  have htarget := hg.length_incident_le e.target
  omega

/-- Three links at one node, a loop among them, two that run opposite ways, and a node without any. -/
theorem laid_out_fairly_around_loop : ∃ (s : Snapshot) (g : Graph), s.build.result = .ok g ∧
    g.edges.map (fun e => (e.source, e.target)) = [(0, 0), (0, 1), (1, 0)] ∧
      (List.range g.nodes.length).map g.incident = [[0, 1, 2], [1, 2], []] ∧ g.edges.length ≤ 2 ^ 52 ∧
      (∀ t, (ofGraph g t : Layout ℝ ℝ).links.map (·.bias) =
        [Scalar.part 3 3, Scalar.part 3 2, Scalar.part 2 3]) ∧
      Granted ℝ ℝ g ∧ Granted Float Float32 g ∧ Fair ℝ ℝ s g ∧ Fair Float Float32 s g := by
  let s : Snapshot :=
    { nodes := [⟨⟨"a"⟩, .interface, {}⟩, ⟨⟨"b"⟩, .interface, {}⟩, ⟨⟨"c"⟩, .host, {}⟩]
      edges := [⟨⟨"loop"⟩, ⟨"a"⟩, ⟨"a"⟩, none, {}⟩, ⟨⟨"there"⟩, ⟨"a"⟩, ⟨"b"⟩, none, {}⟩,
        ⟨⟨"back"⟩, ⟨"b"⟩, ⟨"a"⟩, none, {}⟩] }
  have h : s.build.result = .ok _ := rfl
  have hfew : 3 ≤ 2 ^ 52 := by norm_num
  obtain ⟨-, hexact, hbinary, hfair, hfair'⟩ := laid_out_fairly h
  exact ⟨s, _, h, rfl, rfl, hfew, fun _ => rfl, hexact, hbinary, hfair, hfair' hfew⟩

end Layout

end TunnelMap
