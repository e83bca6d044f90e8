import Mathlib.Analysis.SpecialFunctions.Log.Basic
import Mathlib.Analysis.SpecialFunctions.Trigonometric.Basic
import TunnelMap.Layout.Repulsion
import TunnelMap.Proofs.Layout.Frame
import TunnelMap.Proofs.View.Run

/-! Views in exact arithmetic: the real numbers for both precisions. Nothing is rounded, so bodies
are just where their nodes are, and the camera's two directions are inverse. There is no
greatest real number; one beyond all screens stands for the bound that no number exceeds. Where
rounding is of interest, whole numbers take the place of the lower precision. -/

namespace TunnelMap

noncomputable instance : Scalar ℝ where
  decidableLT := inferInstance
  decidableLE := inferInstance
  ofNat n := n
  ofDecimal m shrink e := if shrink then m / 10 ^ e else m * 10 ^ e
  sqrt := Real.sqrt
  cos := Real.cos
  sin := Real.sin
  ln := Real.log
  floor x := ⌊x⌋
  pi := Real.pi
  ln2 := Real.log 2
  infinity := 10 ^ 400
  toWord x := UInt32.ofNat (min ⌊x⌋.toNat (2 ^ 32 - 1))

noncomputable instance : Engine ℝ := .repelling ℝ

instance : Precision ℝ ℝ := ⟨id, id⟩

/-- The real numbers as a precision that only keeps whole ones. -/
def Whole : Type := ℝ

noncomputable instance : Scalar Whole := inferInstanceAs (Scalar ℝ)

noncomputable instance : Engine Whole := .repelling Whole

noncomputable instance : Precision ℝ Whole := ⟨fun x => (⌊x⌋ : ℝ), id⟩

theorem Whole.rounded_rounded (x : ℝ) :
    widen (narrow (widen (narrow x : Whole) : ℝ) : Whole) = (widen (narrow x : Whole) : ℝ) :=
  congrArg Int.cast (Int.floor_intCast ⌊x⌋)

@[simp] theorem Scalar.ofNat_real (n : ℕ) : (Scalar.ofNat n : ℝ) = n := rfl

theorem Scalar.zero_real : @OfNat.ofNat ℝ 0 (Scalar.instOfNat 0) = 0 := Nat.cast_zero

theorem Scalar.one_real : @OfNat.ofNat ℝ 1 (Scalar.instOfNat 1) = 1 := Nat.cast_one

theorem Scalar.two_real : @OfNat.ofNat ℝ 2 (Scalar.instOfNat 2) = 2 := Nat.cast_ofNat

@[simp] theorem Scalar.sqrt_real (x : ℝ) : Scalar.sqrt x = √x := rfl

theorem Scalar.le_infinity_real {n : ℕ} (h : n ≤ 10) : (n : ℝ) ≤ Scalar.infinity :=
  calc (n : ℝ) ≤ 10 := by exact_mod_cast h
    _ ≤ 10 ^ 400 := le_self_pow₀ (by norm_num) (by norm_num)

theorem Scalar.ofDecimal_real (m e : ℕ) : (Scalar.ofDecimal m true e : ℝ) = m / 10 ^ e := rfl

theorem Scalar.min_real (x y : ℝ) : Scalar.min x y = Min.min x y := by
  unfold Scalar.min
  rw [if_pos (beq_self_eq_true x), min_comm, min_def_lt]

/-- To hold a number between two bounds is to take the larger and the smaller of two. -/
theorem held_eq_max_min {α : Type} [LinearOrder α] {lo hi : α} (h : lo ≤ hi) (x : α) :
    (if x < lo then lo else if hi < x then hi else x) = max lo (min hi x) := by
  split_ifs with hlo hhi
  · rw [min_eq_right (hlo.le.trans h), max_eq_left hlo.le]
  · rw [min_eq_left hhi.le, max_eq_right h]
  · rw [min_eq_right (not_lt.mp hhi), max_eq_right (not_lt.mp hlo)]

theorem held_mem {α : Type} [LinearOrder α] {lo hi : α} (h : lo ≤ hi) (x : α) :
    max lo (min hi x) ∈ Set.Icc lo hi :=
  ⟨le_max_left _ _, max_le h (min_le_left _ _)⟩

theorem held_mono {α : Type} [LinearOrder α] {lo hi x y : α} (h : x ≤ y) :
    max lo (min hi x) ≤ max lo (min hi y) :=
  max_le_max le_rfl (min_le_min le_rfl h)

theorem Scalar.clamp_real {lo hi : ℝ} (h : lo ≤ hi) (x : ℝ) :
    clamp lo hi x = Max.max lo (Min.min hi x) :=
  held_eq_max_min h x

theorem Scalar.le_clamp_real {lo hi : ℝ} (h : lo ≤ hi) (x : ℝ) : lo ≤ clamp lo hi x :=
  (le_max_left _ _).trans_eq (clamp_real h x).symm

theorem Scalar.clamp?_real {lo hi : ℝ} (h : lo ≤ hi) (x : ℝ) :
    ∃ y, clamp? lo hi x = some y ∧ lo ≤ y :=
  ⟨clamp lo hi x, if_pos h, le_clamp_real h x⟩

theorem NodeKind.size_pos (kind : NodeKind) : (0 : ℝ) < kind.size := by
  cases kind
  · exact Nat.cast_pos.mpr (by decide : 0 < 2)
  · exact Nat.cast_pos.mpr (by decide : 0 < 1)

/-- The standard sizes are in order at every zoom, and a node can be hit. -/
theorem Sizing.standard_sizesAt? {k : ℝ} (hk : 0 < k) : ∃ sizes,
    (standard : Sizing ℝ).sizesAt? k = some sizes ∧ 0 < sizes.hitRadius := by
  have bounded {n : ℕ} (h : n ≤ 10) : (Scalar.ofNat n / k : ℝ) ≤ Scalar.infinity / k :=
    div_le_div_of_nonneg_right (Scalar.le_infinity_real h) hk.le
  have hbounds : (Scalar.ofNat 4 : ℝ) ≤ Scalar.ofNat 22 := by norm_num
  obtain ⟨label, hl, -⟩ := Scalar.clamp?_real hbounds
    (Scalar.ofNat 12 * Scalar.ln (Scalar.ofNat 1 + k) / Scalar.ln2)
  obtain ⟨radius, hr, -⟩ := Scalar.clamp?_real (bounded (by decide : 2 ≤ 10)) (Scalar.ofNat 2)
  obtain ⟨hit, hh, hge⟩ := Scalar.clamp?_real (bounded (by decide : 6 ≤ 10)) (Scalar.ofNat 3)
  have hpos : 0 < hit := (div_pos (Nat.cast_pos.mpr (by decide : 0 < 6)) hk).trans_le hge
  exact ⟨_, Option.bind_eq_some_iff.mpr ⟨label, hl, Option.bind_eq_some_iff.mpr
    ⟨radius, hr, Option.bind_eq_some_iff.mpr ⟨hit, hh, rfl⟩⟩⟩, hpos⟩

theorem Sizing.standard_at_one {sizes : Sizes ℝ}
    (h : (standard : Sizing ℝ).sizesAt? 1 = some sizes) :
    sizes.hitRadius = 6 ∧ sizes.edgeHitTolerance = 4 := by
  obtain ⟨label, -, hrest⟩ := Option.bind_eq_some_iff.mp h
  obtain ⟨radius, -, hrest⟩ := Option.bind_eq_some_iff.mp hrest
  obtain ⟨hit, hhit, hrest⟩ := Option.bind_eq_some_iff.mp hrest
  obtain rfl := Option.some.inj hrest
  have hbounds : ((6 : ℕ) : ℝ) ≤ Scalar.infinity := Scalar.le_infinity_real (by decide)
  have hclamp : Scalar.clamp? (Scalar.ofNat 6 / 1) (Scalar.infinity / 1) (Scalar.ofNat 3 : ℝ) =
    some hit := hhit
  have htolerance : (Scalar.ofNat 4 / 1 : ℝ) = 4 := by norm_num
  simp only [div_one, Scalar.ofNat_real, Scalar.clamp?, if_pos hbounds,
    Scalar.clamp_real hbounds] at hclamp
  obtain rfl := Option.some.inj hclamp
  exact ⟨by norm_num, htolerance⟩

theorem Layout.seed_real (count i : ℕ) : (seed count i : Point ℝ) =
    ⟨10 * √(max count 1 : ℕ) * Real.cos (i * 2 * Real.pi / count),
      10 * √(max count 1 : ℕ) * Real.sin (i * 2 * Real.pi / count)⟩ := by
  rw [← Nat.cast_ofNat (R := ℝ) (n := 10), ← Nat.cast_ofNat (R := ℝ) (n := 2)]
  rfl

/-- Two nodes start across from each other. -/
theorem Layout.seed_two :
    (seed 2 0 : Point ℝ) = ⟨10 * √2, 0⟩ ∧ (seed 2 1 : Point ℝ) = ⟨-(10 * √2), 0⟩ := by
  simp [seed_real]

namespace Point

theorem dist_self (p : Point ℝ) : p.dist p = 0 := by
  simp [dist, hypot]

theorem dist_comm (p q : Point ℝ) : p.dist q = q.dist p := by
  simp only [dist, hypot, Scalar.sqrt_real]
  congr 1
  ring

theorem abs_sub_le_dist (p q : Point ℝ) : |p.x - q.x| ≤ p.dist q :=
  Real.abs_le_sqrt (by nlinarith [mul_self_nonneg (p.y - q.y)])

theorem dist_across (p : Point ℝ) {a : ℝ} (ha : 0 ≤ a) : (⟨p.x + a, p.y⟩ : Point ℝ).dist p = a := by
  simp [dist, hypot, Real.sqrt_mul_self ha]

end Point

namespace Camera

theorem toWorld_toScreen {c : Camera ℝ} (hk : c.k ≠ 0) (p : Point ℝ) :
    c.toWorld (c.toScreen p) = p := by
  simp [toWorld, toScreen, hk]

theorem toScreen_across (c : Camera ℝ) (p : Point ℝ) (a : ℝ) :
    c.toScreen ⟨p.x + a, p.y⟩ = ⟨(c.toScreen p).x + a * c.k, (c.toScreen p).y⟩ := by
  have hcoord : (p.x + a) * c.k + c.x = p.x * c.k + c.x + a * c.k := by ring
  exact congrArg (Point.mk · _) hcoord

end Camera

/-- The only node of a graph is a target that has nothing around it. -/
theorem Hover.idle_move_lone (n : Node) :
    idle.move (.ofParts [n] []) (.node n.id) =
      (⟨.node n.id, ⟨[0], []⟩⟩, [.nodeHovered (some n.id)]) := by
  have hi : (Graph.ofParts [n] []).nodeIdx? n.id = some 0 := by
    simp [Graph.ofParts, Graph.nodeIdx?, Roll.ofList]
  have hl : (Graph.ofParts [n] []).nodeHighlight n.id = ⟨[0], []⟩ := by
    rw [Graph.nodeHighlight_eq hi]
    rfl
  simp [move, turn, Graph.resolve_node, hi, idle, Graph.highlight, hl, leaving, reaching]

namespace View

variable {S : Type} [Engine S] [Precision ℝ S]

omit [Engine S] [Precision ℝ S] in
/-- The only node of a graph is found just within its radius of where it is. -/
theorem nodeAt?_lone {v : View ℝ S} {n : Node} {q : Point ℝ} (hn : v.graph.nodes = [n])
    (hq : v.layout.positions[0]? = some q) (hk : v.camera.k ≠ 0) (w : Point ℝ) :
    v.nodeAt? (v.camera.toScreen w) =
      if q.dist w < v.sizes.hitRadiusOf n.kind then some 0 else none := by
  by_cases hd : q.dist w < v.sizes.hitRadiusOf n.kind
  · simp [nodeAt?, nodesNear, nearest, hn, hq, hd, Camera.toWorld_toScreen hk]
  · simp [nodeAt?, nodesNear, nearest, hn, hq, hd, Camera.toWorld_toScreen hk]

omit [Engine S] in
/-- A pointer that holds nothing does no more than turn the hover. -/
theorem point_free {v : View ℝ S} {p : Point ℝ} {h : Hover} {told : List Event}
    (hd : v.drag.active = false) (hp : v.pan.active = false)
    (ht : v.hover.move v.graph (v.pick p) = (h, told)) :
    v.point p = { value := { v with hover := h }, events := told } := by
  simp [point, hd, panTo, hp, ht]

omit [Engine S] [Precision ℝ S] in
theorem nodeAt?_lone_self {v : View ℝ S} {n : Node} {q : Point ℝ} (hn : v.graph.nodes = [n])
    (hq : v.layout.positions[0]? = some q) (hk : v.camera.k ≠ 0)
    (hr : 0 < v.sizes.hitRadiusOf n.kind) : v.nodeAt? (v.camera.toScreen q) = some 0 := by
  rw [nodeAt?_lone hn hq hk, Point.dist_self, if_pos hr]

omit [Engine S] [Precision ℝ S] in
theorem nodeAt?_lone_beside {v : View ℝ S} {n : Node} {q : Point ℝ} (hn : v.graph.nodes = [n])
    (hq : v.layout.positions[0]? = some q) (hk : v.camera.k ≠ 0) {a : ℝ} (ha : 0 ≤ a)
    (hr : v.sizes.hitRadiusOf n.kind ≤ a) : v.nodeAt? (v.camera.toScreen ⟨q.x + a, q.y⟩) = none := by
  rw [nodeAt?_lone hn hq hk, Point.dist_comm, Point.dist_across q ha, if_neg hr.not_gt]

/-- Every graph has a view with the standard sizes, where nodes can be hit. -/
theorem exists_standard (g : Graph) : ∃ o : Outcome (View ℝ S),
    start? g .standard .standard 0 0 = some o ∧ o.value.camera.k = 1 ∧
      ∀ kind, 0 < o.value.sizes.hitRadiusOf kind := by
  have hone : (0 : ℝ) < Scalar.ofNat 1 := by norm_num
  obtain ⟨sizes, hs, hr⟩ := Sizing.standard_sizesAt? hone
  obtain ⟨o, ho⟩ : ∃ o : Outcome (View ℝ S), start? g .standard .standard 0 0 = some o :=
    ⟨_, Option.bind_eq_some_iff.mpr ⟨sizes, hs, rfl⟩⟩
  obtain ⟨sizes', hs', hv, -⟩ := start?_eq_some ho
  obtain rfl : sizes = sizes' := Option.some.inj (hs.symm.trans hs')
  refine ⟨o, ho, ?_, fun kind => ?_⟩
  · rw [hv]
    exact Nat.cast_one
  · rw [hv]
    exact mul_pos hr kind.size_pos

/-- A graph with one node has a view, which has the node at its place on the ring. -/
theorem exists_lone (n : Node) : ∃ o : Outcome (View ℝ S),
    start? (.ofParts [n] []) .standard .standard 0 0 = some o ∧
      o.value.graph = .ofParts [n] [] ∧ o.value.layout.positions[0]? = some (Layout.seed 1 0) ∧
      o.value.camera.k = 1 ∧ 0 < o.value.sizes.hitRadiusOf n.kind := by
  obtain ⟨o, ho, hk, hr⟩ := exists_standard (S := S) (.ofParts [n] [])
  obtain ⟨sizes, -, hv, -⟩ := start?_eq_some ho
  obtain ⟨hplaces, -⟩ :=
    (Layout.ofGraph (.ofParts [n] []) .standard : Layout ℝ S).tune_places .standard (.ofParts [n] [])
  refine ⟨o, ho, by rw [hv], ?_, hk, hr n.kind⟩
  rw [hv]
  exact congrArg (·[0]?) hplaces

/-- It shows the node somewhere and nothing beside it. -/
theorem exists_start (n : Node) : ∃ (o : Outcome (View ℝ S)) (p q : Point ℝ),
    start? (.ofParts [n] []) .standard .standard 0 0 = some o ∧ o.value.nodeAt? p = some 0 ∧
      o.value.nodeAt? q = none := by
  obtain ⟨o, ho, hg, hq, hk, hr⟩ := exists_lone (S := S) n
  have hn : o.value.graph.nodes = [n] := congrArg Graph.nodes hg
  have hk' : o.value.camera.k ≠ 0 := hk ▸ one_ne_zero
  exact ⟨o, _, _, ho, nodeAt?_lone_self hn hq hk' hr, nodeAt?_lone_beside hn hq hk' hr.le le_rfl⟩

/-- The pointer can come to rest on the only node of a graph. -/
theorem exists_rest (n : Node) : ∃ (o : Outcome (View ℝ S)) (p : Point ℝ),
    start? (.ofParts [n] []) .standard .standard 0 0 = some o ∧
      (o.value.point p).value = { o.value with hover := ⟨.node n.id, ⟨[0], []⟩⟩ } ∧
      (o.value.point p).events = [.nodeHovered (some n.id)] := by
  obtain ⟨o, p, -, ho, hat, -⟩ := exists_start (S := S) n
  obtain ⟨sizes, -, hv, -⟩ := start?_eq_some ho
  have hgraph : o.value.graph = .ofParts [n] [] := by rw [hv]
  have hpick : o.value.pick p = .node n.id := pick_of_nodeAt? hat (by rw [hgraph]; rfl)
  have hmove : o.value.hover.move o.value.graph (o.value.pick p) =
      (⟨.node n.id, ⟨[0], []⟩⟩, [.nodeHovered (some n.id)]) := by
    rw [hpick, hv, Hover.idle_move_lone]
  have hpoint := point_free (by rw [hv]; rfl) (by rw [hv]) hmove
  exact ⟨o, p, ho, by rw [hpoint], by rw [hpoint]⟩

theorem clickSlop_lt_dist_across (p : Point ℝ) {a : ℝ} (ha : 3 < a) :
    clickSlop < (⟨p.x + a, p.y⟩ : Point ℝ).dist p := by
  rw [Point.dist_across p (by linarith)]
  exact_mod_cast ha

omit [Engine S] [Precision ℝ S] in
/-- Ten pixels across are more than a press may travel. -/
theorem track_across (v : View ℝ S) (p : Point ℝ) : (v.track p ⟨p.x + 10, p.y⟩).moved := by
  rw [track, if_pos (clickSlop_lt_dist_across p (by norm_num))]

/-- The pointer can take hold of the only node of a graph and travel with it. -/
theorem exists_drag (e : NodeEntry) : ∃ (v : View ℝ S) (q : Point ℝ),
    v.Reachable ∧ v.graph = .ofParts [e.node] [] ∧ v.Holds 0 ∧ (v.track v.drag.start q).moved ∧
      v.sizes.k == v.camera.k := by
  obtain ⟨o, p, -, ho, hat, -⟩ := exists_start (S := S) e.node
  obtain ⟨sizes, hs, hv, -⟩ := start?_eq_some ho
  have hlone : Graph.OfSnapshot (.ofParts [e.node] []) := .lone e
  have hop : (.press p : Operation ℝ S).FromSnapshot := trivial
  let a : Point ℝ := o.value.layout.positions[0]?.getD .origin
  have hpress : o.value.press p = { o.value with moved := false, drag := ⟨true, some 0, p, a⟩ } := by
    rw [press, hat]
  refine ⟨o.value.press p, ⟨p.x + 10, p.y⟩, .perform (.start hlone ho) hop rfl, ?_, ?_, ?_, ?_⟩
  · rw [hpress, hv]
  · rw [hpress]
    exact ⟨rfl, rfl⟩
  · rw [hpress]
    exact track_across _ p
  · rw [hpress, hv]
    simp [Sizing.k_of_sizesAt? hs]

end View

end TunnelMap
