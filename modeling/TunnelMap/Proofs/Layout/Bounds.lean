import TunnelMap.Proofs.Layout.Carry

/-! The changes of a layout with every look into a list guarded: a place that a list does not have
ends the change. For a layout that fits a graph of a snapshot nothing is ever ended, as all places
that a change goes by are those of nodes of the graph: the nodes of the bodies, the ends of the
links, and the nodes of the graph themselves. The guarded changes are then the changes. -/

namespace TunnelMap

/-- Changes the entry at a place, if there is one. -/
def alter? {α : Type} (xs : List α) (i : Nat) (f : α → α) : Option (List α) :=
  if i < xs.length then some (xs.modify i f) else none

/-- Puts an entry in the place of another, if there is one. -/
def put? {α : Type} (xs : List α) (i : Nat) (x : α) : Option (List α) :=
  if i < xs.length then some (xs.set i x) else none

section Lists

variable {α β σ : Type}

theorem alter?_eq {xs : List α} {i : Nat} (h : i < xs.length) (f : α → α) :
    alter? xs i f = some (xs.modify i f) := if_pos h

theorem put?_eq {xs : List α} {i : Nat} (h : i < xs.length) (x : α) :
    put? xs i x = some (xs.set i x) := if_pos h

/-- The next of two halves of a list is put between them. -/
theorem put?_next (done rest : List α) (x y : α) :
    put? (done ++ x :: rest) done.length y = some ((done ++ [y]) ++ rest) := by
  rw [put?_eq (by simp), List.set_append_right _ _ (Nat.le_refl _)]
  simp

/-- Steps that are never ended, as long as something holds that they keep. -/
theorem foldlM_eq_foldl {step? : σ → α → Option σ} {step : σ → α → σ} {P : σ → Prop} {xs : List α}
    (h : ∀ s x, P s → x ∈ xs → step? s x = some (step s x) ∧ P (step s x)) {s : σ} (hs : P s) :
    xs.foldlM step? s = some (xs.foldl step s) := by
  induction xs generalizing s with
  | nil => rfl
  | cons x xs ih =>
    obtain ⟨hx, hnext⟩ := h s x hs List.mem_cons_self
    rw [List.foldlM_cons, hx]
    exact ih (fun s y hs hy => h s y hs (List.mem_cons_of_mem x hy)) hnext

theorem mapM_eq_map {f? : α → Option β} {f : α → β} {xs : List α} (h : ∀ x ∈ xs, f? x = some (f x)) :
    xs.mapM f? = some (xs.map f) := by
  induction xs with
  | nil => rfl
  | cons x xs ih =>
    rw [List.mapM_cons, h x List.mem_cons_self, ih fun y hy => h y (List.mem_cons_of_mem x hy)]
    rfl

end Lists

namespace Layout

variable {R S : Type}

/-! ### Guarded changes -/

section Guarded

variable [Precision R S]

def fetch? (positions : List (Point R)) (b : Body S) : Option (List (Point R)) :=
  put? positions b.node (spot b)

def align? (l : Layout R S) (b : Body S) : Option (Body S) := do
  let p ← l.positions[b.node]?
  let pinned ← l.pinned[b.node]?
  return follow b p pinned

def writeBack? (l : Layout R S) : Option (Layout R S) := do
  let bodies ← l.bodies.mapM l.align?
  return { l with bodies }

/-- A pin looks whether there is a place for the node, and not again. -/
def pin? (l : Layout R S) (i : NodeIdx) (p : Point R) : Option (Layout R S) :=
  if i < l.positions.length then do
    let pinned ← put? l.pinned i true
    let handle ← l.handles[i]?
    return { l with
      positions := l.positions.set i p
      pinned
      bodies := l.bodies.map fun b => if b.handle = handle then follow b p true else b }
  else some l

/-- Takes over what is remembered of one node, if anything is, and counts it. -/
def carryNode? (previous : Layout R S) (previousGraph : Graph)
    (state : List (Point R) × List Bool × Nat) (entry : Node × NodeIdx) :
    Option (List (Point R) × List Bool × Nat) :=
  match previous.remembered previousGraph entry.1.id with
  | some (p, pinned) => do
    let positions ← put? state.1 entry.2 p
    let pins ← put? state.2.1 entry.2 pinned
    return (positions, pins, state.2.2 + 1)
  | none => some state

def carryOver? (l : Layout R S) (g previousGraph : Graph) (previous : Layout R S) :
    Option (Layout R S × Nat) := do
  let (positions, pinned, carried) ←
    g.nodes.zipIdx.foldlM (previous.carryNode? previousGraph) (l.positions, l.pinned, 0)
  let l ← writeBack? { l with positions, pinned }
  return (l, carried)

variable [Scalar R]

def drawLink? (alpha : R) (pinned : List Bool) (positions : List (Point R)) (k : Link R) :
    Option (List (Point R)) := do
  let s ← positions[k.source]?
  let t ← positions[k.target]?
  match correction? alpha k s t with
  | some c =>
    let positions ←
      if !(← pinned[k.target]?) then alter? positions k.target (drawTarget k c) else some positions
    if !(← pinned[k.source]?) then alter? positions k.source (drawSource k c) else some positions
  | none => some positions

def applyLinks? (l : Layout R S) : Option (Layout R S) := do
  let positions ← l.links.foldlM (drawLink? l.alpha l.pinned) l.positions
  return { l with positions }

variable [Engine S]

def sweep? (l : Layout R S) (dt : S) : Option (Layout R S) := do
  let bodies := Engine.move ⟨narrow (l.meanRepulsion * l.alpha), l.damping, dt⟩ l.bodies
  let positions ← bodies.foldlM fetch? l.positions
  return { l with bodies, positions }

def tick? (l : Layout R S) (dt : S) : Option (Layout R S) :=
  if l.isRunning then do
    let l ← l.sweep? dt
    let l ← l.applyLinks?
    let l ← l.writeBack?
    return l.cool
  else some l

end Guarded

/-! ### Nothing is ended -/

/-- The ends of all links are among `n` nodes. -/
def Tied (l : Layout R S) (n : Nat) : Prop := ∀ k ∈ l.links, k.source < n ∧ k.target < n

variable [Precision R S] {l : Layout R S} {g : Graph} {n : Nat}

theorem Fits.tied (h : l.Fits g) (hg : g.Sound) : l.Tied g.nodes.length := by
  intro k hk
  have hends : (k.source, k.target) ∈ g.edges.map fun e => (e.source, e.target) :=
    h.links ▸ List.mem_map_of_mem hk
  obtain ⟨e, he, heq⟩ := List.mem_map.mp hends
  obtain ⟨hs, ht⟩ := Prod.mk.inj heq
  exact ⟨hs ▸ hg.source_lt he, ht ▸ hg.target_lt he⟩

namespace Staffed

variable (h : l.Staffed n)

include h

theorem align?_eq {b : Body S} (hb : b ∈ l.bodies) : l.align? b = some (l.align b) := by
  obtain ⟨p, pinned, hp, hpinned⟩ := h.exists_entry (h.node_lt hb)
  simp [align?, align_eq hp hpinned, hp, hpinned]

theorem writeBack?_eq : l.writeBack? = some l.writeBack := by
  rw [writeBack?, mapM_eq_map fun b hb => h.align?_eq hb]
  rfl

/-- A pin finds a flag and a handle wherever it finds a place. -/
theorem pin?_eq (i : NodeIdx) (p : Point R) : l.pin? i p = some (l.pin i p) := by
  unfold pin? Layout.pin
  split_ifs with hi
  · rw [h.positions] at hi
    have hhandle : i < l.handles.length := h.handles_length ▸ hi
    rw [put?_eq (h.pinned ▸ hi), List.getElem?_eq_getElem hhandle]
    simp [eq_comm]
  · rfl

omit [Precision R S] in
theorem drawLink?_eq [Scalar R] {ps : List (Point R)} (hps : ps.length = n) {k : Link R}
    (hk : k.source < n ∧ k.target < n) :
    drawLink? l.alpha l.pinned ps k = some (drawLink l.alpha l.pinned ps k) := by
  obtain ⟨hs, ht⟩ := hk
  have hsp : k.source < l.pinned.length := h.pinned ▸ hs
  have htp : k.target < l.pinned.length := h.pinned ▸ ht
  subst hps
  simp only [drawLink?, drawLink, List.getElem?_eq_getElem hs, List.getElem?_eq_getElem ht,
    List.getElem?_eq_getElem hsp, List.getElem?_eq_getElem htp, Option.bind_eq_bind,
    Option.bind_some, Option.getD_some]
  cases correction? l.alpha k ps[k.source] ps[k.target] with
  | none => rfl
  | some c =>
    dsimp only
    rw [alter?_eq ht]
    split_ifs
    · exact alter?_eq (by simpa using hs) _
    · rfl
    · exact alter?_eq hs _
    · rfl

omit [Precision R S] in
theorem applyLinks?_eq [Scalar R] (hk : l.Tied n) : l.applyLinks? = some l.applyLinks := by
  have hdraw (ps : List (Point R)) (k : Link R) (hps : ps.length = n) (hmem : k ∈ l.links) :
      drawLink? l.alpha l.pinned ps k = some (drawLink l.alpha l.pinned ps k) ∧
        (drawLink l.alpha l.pinned ps k).length = n :=
    ⟨h.drawLink?_eq hps (hk k hmem), (length_drawLink ..).trans hps⟩
  rw [applyLinks?, foldlM_eq_foldl hdraw h.positions]
  rfl

variable [Scalar R] [Engine S]

theorem sweep?_eq (dt : S) : l.sweep? dt = some (l.sweep dt) := by
  have hfetch (ps : List (Point R)) (b : Body S) (hps : ps.length = n)
      (hb : b ∈ (l.sweep dt).bodies) : fetch? ps b = some (fetch ps b) ∧ (fetch ps b).length = n :=
    ⟨put?_eq (hps ▸ (h.sweep dt).node_lt hb) _, (List.length_set ..).trans hps⟩
  have hfold := foldlM_eq_foldl hfetch h.positions
  rw [sweep?]
  exact Option.bind_eq_some_iff.mpr ⟨_, hfold, rfl⟩

theorem tick?_eq (hk : l.Tied n) (dt : S) : l.tick? dt = some (l.tick dt) := by
  unfold tick? Layout.tick
  split_ifs
  · have hk' : (l.sweep dt).Tied n := hk
    simp only [h.sweep?_eq, Option.bind_eq_bind, Option.bind_some, (h.sweep dt).applyLinks?_eq hk',
      (h.sweep dt).applyLinks.writeBack?_eq, Option.pure_def]
  · rfl

end Staffed

/-! ### Succession -/

omit [Precision R S] in
/-- Over the nodes of a graph, the places that were done stand before those that are left. -/
theorem foldlM_carryNode? (previous : Layout R S) (previousGraph : Graph) (nodes : List Node)
    (done ps : List (Point R)) (pins bs : List Bool) (carried : Nat)
    (hp : ps.length = nodes.length) (hb : bs.length = nodes.length) (hd : pins.length = done.length) :
    let memory := nodes.map fun n => previous.remembered previousGraph n.id
    (nodes.zipIdx done.length).foldlM (previous.carryNode? previousGraph)
        (done ++ ps, pins ++ bs, carried) =
      some (done ++ List.zipWith (fun m p => (m.map Prod.fst).getD p) memory ps,
        pins ++ List.zipWith (fun m b => (m.map Prod.snd).getD b) memory bs,
        carried + memory.countP Option.isSome) := by
  intro memory
  induction nodes generalizing done ps pins bs carried with
  | nil =>
    obtain rfl := List.eq_nil_of_length_eq_zero hp
    obtain rfl := List.eq_nil_of_length_eq_zero hb
    simp [memory]
  | cons n nodes ih =>
    obtain ⟨p, ps, rfl⟩ := List.exists_cons_of_length_eq_add_one hp
    obtain ⟨b, bs, rfl⟩ := List.exists_cons_of_length_eq_add_one hb
    have hp' : ps.length = nodes.length := Nat.succ.inj hp
    have hb' : bs.length = nodes.length := Nat.succ.inj hb
    rw [List.zipIdx_cons, List.foldlM_cons]
    cases hm : previous.remembered previousGraph n.id with
    | none =>
      have hrest := ih (done ++ [p]) ps (pins ++ [b]) bs carried hp' hb' (by simp [hd])
      simpa [carryNode?, hm, memory] using hrest
    | some entry =>
      have hrest := ih (done ++ [entry.1]) ps (pins ++ [entry.2]) bs (carried + 1) hp' hb' (by simp [hd])
      have hpins := put?_next pins bs b entry.2
      rw [hd] at hpins
      simpa [carryNode?, hm, memory, put?_next, hpins, Nat.add_assoc, Nat.add_comm 1] using hrest

theorem Staffed.carryOver?_eq (h : l.Staffed g.nodes.length) (previousGraph : Graph)
    (previous : Layout R S) :
    l.carryOver? g previousGraph previous = some (l.carryOver g previousGraph previous) := by
  let memory := g.nodes.map fun n => previous.remembered previousGraph n.id
  have hfold := foldlM_carryNode? previous previousGraph g.nodes [] l.positions [] l.pinned 0
    h.positions h.pinned rfl
  simp only [List.length_nil, List.nil_append, Nat.zero_add] at hfold
  have hwrite : (l.inherit memory).writeBack? = some (l.inherit memory).writeBack :=
    (h.inherit (List.length_map ..)).writeBack?_eq
  rw [carryOver?, hfold]
  exact Option.bind_eq_some_iff.mpr ⟨_, rfl, Option.bind_eq_some_iff.mpr ⟨_, hwrite, rfl⟩⟩

end Layout

end TunnelMap
