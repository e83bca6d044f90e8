import TunnelMap.Proofs.Picture.Scene
import TunnelMap.Proofs.View.Zoom

/-! The operations of a view with every bound and every place guarded: bounds that are out of order and
places that a list does not have end the operation. Places are guarded by the changes of the layout.
Bounds are met where sizes are looked up, where the zoom is held in its range, where an address fades in
and where the distance from a segment is taken. Those of the sizes are given from outside, but as soon as
they are in order at zoom one they are in order at every zoom that the wheel can lead to, and all others
are fixed. So a view that could be started never ends an operation: the guarded operations are the
operations, and a picture of the view finds all that it looks for. -/

namespace TunnelMap

variable {R S : Type} [Scalar R] [Engine S] [Precision R S]

/-! ### Guarded operations -/

namespace Curve

def segmentDist? (p a b : Point R) : Option R := do
  let dx := b.x - a.x
  let dy := b.y - a.y
  let square := dx * dx + dy * dy
  let t ← if 0 < square then Scalar.clamp? 0 1 (((p.x - a.x) * dx + (p.y - a.y) * dy) / square)
    else some 0
  return p.dist ⟨a.x + dx * t, a.y + dy * t⟩

def distanceTo? (c : Curve R) (p : Point R) : Option R :=
  if c.curved then do
    let ds ← (List.range chords).mapM fun i => segmentDist? p (c.sample i) (c.sample (i + 1))
    return least ds
  else segmentDist? p c.start c.stop

end Curve

def Visibility.apply? (v : Visibility R) (k : R) : Option R :=
  match v with
  | .constant => some 1
  | .fade zero full =>
    if zero == full then some 1 else Scalar.clamp? 0 1 ((k - zero) / (full - zero))

def Camera.zoomAt? (c : Camera R) (p : Point R) (turn : R) : Option (Camera R) := do
  let factor := if 0 < turn then 0.9 else 1.1
  let k ← Scalar.clamp? minZoom maxZoom (c.k * factor)
  let ratio := k / c.k
  return ⟨p.x - (p.x - c.x) * ratio, p.y - (p.y - c.y) * ratio, k⟩

namespace View

/-- An edge with its distance, if the world point `q` is near enough to it. -/
def edgeNear? (v : View R S) (q : Point R) (entry : Edge × EdgeIdx) :
    Option (Option (EdgeIdx × R)) :=
  match v.curve? entry.1 with
  | some c => do
    let d ← c.distanceTo? q
    return if d ≤ v.sizes.edgeHitTolerance then some (entry.2, d) else none
  | none => some none

def edgesNear? (v : View R S) (p : Point R) : Option (List (EdgeIdx × R)) := do
  let found ← v.graph.edges.zipIdx.mapM (v.edgeNear? (v.camera.toWorld p))
  return found.reduceOption

/-- The edges are only looked through where there is no node. -/
def pick? (v : View R S) (p : Point R) : Option Target :=
  match (v.nodeAt? p).bind v.graph.node? with
  | some n => some (.node n.id)
  | none => do
    let found ← v.edgesNear? p
    return match (nearest found).bind v.graph.edge? with
      | some e => .edge e.id
      | none => .nothing

namespace Guarded

def refresh? (v : View R S) : Option (View R S) :=
  if v.sizes.k == v.camera.k then some v
  else do
    let sizes ← v.sizing.sizesAt? v.camera.k
    let _ ← v.sizing.label.addressAlpha.apply? v.camera.k
    return { v with sizes }

def dragTo? (v : View R S) (p : Point R) : Option (Outcome (View R S)) :=
  let v := v.track v.drag.start p
  match v.drag.node with
  | some i =>
    if v.moved then do
      let layout ← v.layout.pin? i (v.dragged p)
      return if layout.isRunning then { value := { v with layout } }
        else { value := { v with layout := layout.obey .reheat }, notices := [.reheated] }
    else some { value := v }
  | none => some { value := v }

def point? (v : View R S) (p : Point R) : Option (Outcome (View R S)) :=
  if v.drag.active then dragTo? v p
  else do
    let v := v.panTo p
    let picked ← v.pick? p
    let (hover, events) := v.hover.move v.graph picked
    return { value := { v with hover }, events }

def lift? (v : View R S) (p : Point R) : Option (Outcome (View R S)) := do
  let events ← if v.isPressed && !v.moved then (v.pick? p).map v.graph.click else some []
  return { v.lift p with events }

def zoomAt? (v : View R S) (p : Point R) (turn : R) : Option (View R S) := do
  let camera ← v.camera.zoomAt? p turn
  refresh? { v with camera }

def tick? (v : View R S) (dt : S) : Option (View R S) := do
  let v ← refresh? v
  let layout ← v.layout.tick? dt
  return { v with layout, flowTime := v.flowTime + widen dt }

def replace? (v : View R S) (g : Graph) : Option (Outcome (View R S)) := do
  let (layout, carried) ← (Layout.ofGraph g v.tuning).carryOver? g v.graph v.layout
  let (hover, events) := v.hover.rebind g
  return {
    value := { v with graph := g, layout := layout.tune v.tuning g, hover, drag := .idle }
    events
    notices := .positionsCarried carried ::
      (Layout.tuneNotices g ++ [.replaced g.nodes.length g.edges.length]) }

def perform? (v : View R S) : Operation R S → Option (Outcome (View R S))
  | .press p => some { value := v.press p }
  | .point p => point? v p
  | .lift p => lift? v p
  | .exit => some v.exit
  | .zoom p turn => (zoomAt? v p turn).map fun v => { value := v }
  | .tick dt => (tick? v dt).map fun v => { value := v }
  | .resize width height => some { value := v.resize width height }
  | .retune tuning => some (v.retune tuning)
  | .replace g => replace? v g

end Guarded

end View

/-! ### Nothing is ended -/

/-- The bounds that are not given from outside are in order. -/
structure Scalar.FixedBounds (R : Type) [Scalar R] : Prop where
  share : (0 : R) ≤ 1
  zoom : (Camera.minZoom : R) ≤ Camera.maxZoom

theorem Scalar.FixedBounds.binary : Scalar.FixedBounds Float := by
  constructor <;> decide +kernel

section

variable (hb : Scalar.FixedBounds R)

include hb

theorem Curve.segmentDist?_eq (p a b : Point R) :
    segmentDist? p a b = some (segmentDist p a b) := by
  unfold segmentDist? segmentDist
  simp only [Scalar.clamp?, if_pos hb.share]
  split_ifs <;> rfl

theorem Curve.distanceTo?_eq (c : Curve R) (p : Point R) : c.distanceTo? p = some (c.distanceTo p) := by
  unfold distanceTo? distanceTo
  split_ifs
  · rw [mapM_eq_map fun i _ => segmentDist?_eq hb p (c.sample i) (c.sample (i + 1))]
    rfl
  · exact segmentDist?_eq hb p c.start c.stop

theorem Visibility.apply?_eq (v : Visibility R) (k : R) : v.apply? k = some (v.apply k) := by
  cases v with
  | constant => rfl
  | fade zero full =>
    unfold Visibility.apply? apply
    simp only [Scalar.clamp?, if_pos hb.share]
    split_ifs <;> rfl

theorem Camera.zoomAt?_eq (c : Camera R) (p : Point R) (turn : R) :
    c.zoomAt? p turn = some (c.zoomAt p turn) := by
  simp only [zoomAt?, zoomAt, Scalar.clamp?, if_pos hb.zoom]
  rfl

namespace View

omit [Engine S] [Precision R S] in
theorem edgeNear?_eq (v : View R S) (q : Point R) (entry : Edge × EdgeIdx) :
    v.edgeNear? q entry = some (do
      let d := (← v.curve? entry.1).distanceTo q
      if d ≤ v.sizes.edgeHitTolerance then some (entry.2, d) else none) := by
  unfold edgeNear?
  cases v.curve? entry.1 with
  | none => rfl
  | some c => simp [Curve.distanceTo?_eq hb]

omit [Engine S] [Precision R S] in
theorem edgesNear?_eq (v : View R S) (p : Point R) : v.edgesNear? p = some (v.edgesNear p) := by
  unfold edgesNear? edgesNear
  rw [mapM_eq_map fun entry _ => v.edgeNear?_eq hb (v.camera.toWorld p) entry]
  simp [List.reduceOption, List.filterMap_map]

omit [Engine S] [Precision R S] in
theorem pick?_eq (v : View R S) (p : Point R) : v.pick? p = some (v.pick p) := by
  unfold pick? pick
  cases (v.nodeAt? p).bind v.graph.node? with
  | some n => rfl
  | none =>
    dsimp only
    rw [edgesNear?_eq hb]
    rfl

namespace Guarded

omit [Engine S] [Precision R S] in
theorem refresh?_eq (v : View R S) : refresh? v = v.refresh? := by
  unfold refresh? View.refresh?
  simp only [Visibility.apply?_eq hb]
  split_ifs
  · rfl
  · cases v.sizing.sizesAt? v.camera.k <;> rfl

omit [Engine S] [Precision R S] in
theorem zoomAt?_eq (v : View R S) (p : Point R) (turn : R) : zoomAt? v p turn = v.zoomAt? p turn := by
  unfold zoomAt? View.zoomAt?
  rw [Camera.zoomAt?_eq hb]
  exact refresh?_eq hb _

omit [Engine S] [Precision R S] in
theorem lift?_eq (v : View R S) (p : Point R) : lift? v p = some (v.lift p) := by
  unfold lift? View.lift
  rw [pick?_eq hb]
  split_ifs <;> rfl

variable {v : View R S} (hv : v.layout.Unbroken v.graph)

include hv

omit hb in
theorem dragTo?_eq (p : Point R) : dragTo? v p = some (v.dragTo p) := by
  obtain ⟨moved, hm⟩ := v.track_eq v.drag.start p
  unfold dragTo? dragTo
  rw [hm]
  dsimp only
  cases v.drag.node with
  | some i =>
    simp only [hv.pin, Option.bind_eq_bind, Option.bind_some, Option.pure_def]
    split_ifs <;> rfl
  | none => rfl

theorem point?_eq (p : Point R) : point? v p = some (v.point p) := by
  unfold point? View.point
  split_ifs
  · exact dragTo?_eq hv p
  · simp only [pick?_eq hb]
    rfl

theorem tick?_eq (dt : S) : tick? v dt = v.tick? dt := by
  unfold tick? View.tick?
  rw [refresh?_eq hb]
  cases hr : v.refresh? with
  | none => rfl
  | some w =>
    obtain ⟨sizes, rfl⟩ := refresh?_eq_some hr
    simp [hv.tick]

omit hb in
theorem replace?_eq (g : Graph) : replace? v g = some (v.replace g) := by
  unfold replace? View.replace
  rw [hv.carryOver]
  rfl

/-- Of a layout that no change breaks off, the guarded operations are the operations. -/
theorem perform?_eq (op : Operation R S) : perform? v op = v.perform? op := by
  cases op with
  | point p => exact point?_eq hb hv p
  | lift p => exact lift?_eq hb v p
  | zoom p turn => rw [perform?, View.perform?, zoomAt?_eq hb]
  | tick dt => rw [perform?, View.perform?, tick?_eq hb hv]
  | replace g => exact replace?_eq hv g
  | _ => rfl

end Guarded

end View

end

/-! ### Views in binary floating point -/

namespace View

variable {S : Type} [Engine S] [Precision Float S]

theorem Reachable.exists_perform? {v : View Float S} (h : v.Reachable) (op : Operation Float S) :
    ∃ o, v.perform? op = some o := by
  by_cases hop : op.Zooms
  · cases op with
    | zoom p turn =>
      obtain ⟨sizes, -, hzoom⟩ := h.exists_zoomed p turn
      exact ⟨_, Option.map_eq_some_iff.mpr ⟨_, hzoom, rfl⟩⟩
    | _ => exact hop.elim
  · exact h.sized.exists_perform? hop

theorem Reachable.exists_run? {o : Outcome (View Float S)} (h : o.value.Reachable)
    {ops : List (Operation Float S)} (hops : ∀ op ∈ ops, op.FromSnapshot) : ∃ r, o.run? ops = some r :=
  Outcome.exists_goAll? (P := Reachable) (fun _ op hv hmem =>
    let ⟨next, hnext⟩ := hv.exists_perform? op
    ⟨next, hnext, .perform hv (hops op hmem) hnext⟩) h

/-- What could be started goes through any operations with every bound and every place guarded, and a
picture can then be drawn. For bounds that are in order stay so when they are divided by a zoom in the
range of the wheel, and the sizes are in order at all of them. -/
theorem guarded_run {g : Graph} {tuning : Tuning Float} {sizing : Sizing Float} {width height : Float}
    {o : Outcome (View Float S)} (hg : g.OfSnapshot)
    (ho : start? g tuning sizing width height = some o) {ops : List (Operation Float S)}
    (hops : ∀ op ∈ ops, op.FromSnapshot) :
    (∀ k : Float, Camera.minZoom ≤ k → k ≤ Camera.maxZoom →
      (∀ lo hi : Float, lo ≤ hi → lo / k ≤ hi / k) ∧ ∃ sizes, sizing.sizesAt? k = some sizes) ∧
    ∃ r, o.goAll? Guarded.perform? ops = some r ∧ o.run? ops = some r ∧
      ∀ theme, r.value.Picture theme (r.value.draw theme) := by
  obtain ⟨sizes, hs, -⟩ := start?_eq_some ho
  have hreach : o.value.Reachable := .start hg ho
  obtain ⟨r, hr⟩ := hreach.exists_run? hops
  have hguarded : o.run? ops = o.goAll? Guarded.perform? ops :=
    Outcome.goAll?_congr (P := Reachable)
      (fun _ op hv _ => (Guarded.perform?_eq .binary (hv.fits.unbroken hv.sound) op).symm)
      (fun _ op _ hv hmem hnext => .perform hv (hops op hmem) hnext) hreach
  refine ⟨fun k hmin hmax => ⟨fun lo hi h => Binary.div_le_div (Camera.InRange.proper ⟨hmin, hmax⟩) h,
    Sizing.inOrder_of_one ⟨sizes, hs⟩ k ⟨hmin, hmax⟩⟩, r, hguarded ▸ hr, hr, fun theme => ?_⟩
  exact (hreach.run hops hr).draw_picture theme

/-- A node is taken along while the wheel is turned and time passes, and then another graph comes in. -/
theorem guarded_run_to_replace : ∃ (pair trio : Graph) (o r : Outcome (View Float Float32)),
    pair.nodes.length = 2 ∧ trio.nodes.length = 3 ∧
      start? pair .standard .standard 800 600 = some o ∧
      o.goAll? Guarded.perform? [.zoom ⟨400, 300⟩ 1, .press ⟨414, 300⟩, .point ⟨440, 300⟩, .tick 0.01,
        .replace trio, .lift ⟨440, 300⟩] = some r := by
  let a : NodeEntry := ⟨⟨"a"⟩, .interface, {}⟩
  let b : NodeEntry := ⟨⟨"b"⟩, .interface, {}⟩
  let c : NodeEntry := ⟨⟨"c"⟩, .host, {}⟩
  let pair : Graph := .ofParts [a.node, b.node] [⟨⟨"t"⟩, 0, 1, .peer, {}⟩]
  let trio : Graph := .ofParts [c.node, b.node, a.node] [⟨⟨"t"⟩, 2, 1, .peer, {}⟩]
  have hpair : pair.OfSnapshot := ⟨⟨[a, b], [⟨⟨"t"⟩, a.id, b.id, none, {}⟩]⟩, rfl⟩
  have htrio : trio.OfSnapshot := ⟨⟨[c, b, a], [⟨⟨"t"⟩, a.id, b.id, none, {}⟩]⟩, rfl⟩
  obtain ⟨o, ho⟩ : ∃ o : Outcome (View Float Float32),
      start? pair .standard .standard 800 600 = some o := ⟨_, rfl⟩
  have hops : ∀ op ∈ ([.zoom ⟨400, 300⟩ 1, .press ⟨414, 300⟩, .point ⟨440, 300⟩, .tick 0.01,
      .replace trio, .lift ⟨440, 300⟩] : List (Operation Float Float32)), op.FromSnapshot := by
    simp [Operation.FromSnapshot, htrio]
  obtain ⟨-, r, hr, -⟩ := guarded_run hpair ho hops
  exact ⟨pair, trio, o, r, rfl, rfl, ho, hr⟩

end View

end TunnelMap
