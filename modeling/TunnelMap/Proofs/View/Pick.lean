import Mathlib.Data.List.MinMax
import TunnelMap.Proofs.Geometry.Curve
import TunnelMap.Proofs.View.Grip

/-! What is under the pointer. Of the nodes that are near enough, each by the radius of its own kind, the
nearest is taken, and only if there is none the nearest of the edges. Where numbers are ordered by a rank,
the nearest is the first entry of least rank, so that nothing else that was found is nearer. -/

namespace TunnelMap

variable {R S : Type} [Scalar R]

/-! ### The nearest of what is found -/

/-- Numbers, which are what compares with itself, are ordered by their ranks in a linear order. -/
structure Ranked {K : Type} [LinearOrder K] (rank : R → K) : Prop where
  number_of_lt : ∀ {x y : R}, x < y → x ≤ x ∧ y ≤ y
  number_of_le : ∀ {x y : R}, x ≤ y → x ≤ x ∧ y ≤ y
  lt_iff : ∀ {x y : R}, x ≤ x → y ≤ y → (x < y ↔ rank x < rank y)
  le_iff : ∀ {x y : R}, x ≤ x → y ≤ y → (x ≤ y ↔ rank x ≤ rank y)

theorem ranked_real : Ranked (id : ℝ → ℝ) where
  number_of_lt _ := ⟨le_rfl, le_rfl⟩
  number_of_le _ := ⟨le_rfl, le_rfl⟩
  lt_iff _ _ := Iff.rfl
  le_iff _ _ := Iff.rfl

omit [Scalar R] in
/-- Two ways through a list come to the same if they agree as long as something holds that they keep. -/
theorem foldl_congr_of_keeps {α β : Type} {f g : β → α → β} {P : β → Prop} {xs : List α}
    (same : ∀ b, ∀ x ∈ xs, P b → f b x = g b x) (keep : ∀ b, ∀ x ∈ xs, P b → P (g b x)) {b : β}
    (hb : P b) : xs.foldl f b = xs.foldl g b := by
  induction xs generalizing b with
  | nil => rfl
  | cons x xs ih =>
    rw [List.foldl_cons, List.foldl_cons, same b x List.mem_cons_self hb]
    exact ih (fun b y hy => same b y (List.mem_cons_of_mem x hy))
      (fun b y hy => keep b y (List.mem_cons_of_mem x hy)) (keep b x List.mem_cons_self hb)

theorem Ranked.nearest_eq_argmin {K : Type} [LinearOrder K] {rank : R → K} (hr : Ranked rank)
    {found : List (ℕ × R)} (hnumber : ∀ x ∈ found, x.2 ≤ x.2) :
    nearest found = (found.argmin fun x => rank x.2).map Prod.fst := by
  unfold nearest List.argmin
  congr 1
  -- What has been taken so far is an entry, and so it is a number as well.
  refine foldl_congr_of_keeps (P := fun best => ∀ b, best = some b → b.2 ≤ b.2)
    (fun best c hc hbest => ?_) (fun best c hc hbest => ?_) nofun
  · cases best with
    | none => rfl
    | some b => exact if_congr (hr.lt_iff (hnumber c hc) (hbest b rfl)) rfl rfl
  · cases best with
    | none => exact fun x hx => Option.some.inj hx ▸ hnumber c hc
    | some b =>
      unfold List.argAux
      dsimp only
      split_ifs
      · exact fun x hx => Option.some.inj hx ▸ hnumber c hc
      · exact hbest

/-- Where something is found, the nearest is no farther. -/
theorem exists_nearest_le {found : List (ℕ × ℝ)} {x : ℕ × ℝ} (hx : x ∈ found) :
    ∃ i d, nearest found = some i ∧ (i, d) ∈ found ∧ d ≤ x.2 := by
  have hnearest : nearest found = (found.argmin fun x => id x.2).map Prod.fst :=
    ranked_real.nearest_eq_argmin fun _ _ => le_rfl
  cases hb : found.argmin fun x => id x.2 with
  | none => exact absurd (List.argmin_eq_none.mp hb) (List.ne_nil_of_mem hx)
  | some b =>
    exact ⟨b.1, b.2, by rw [hnearest, hb]; rfl, List.argmin_mem hb, List.le_of_mem_argmin hx hb⟩

namespace View

/-! ### What is near -/

theorem mem_nodesNear {v : View R S} {p : Point R} {i : NodeIdx} {d : R} :
    (i, d) ∈ v.nodesNear p ↔ ∃ n q, v.graph.node? i = some n ∧ v.layout.positions[i]? = some q ∧
      d = q.dist (v.camera.toWorld p) ∧ d < v.sizes.hitRadiusOf n.kind := by
  unfold nodesNear
  rw [List.mem_filterMap]
  constructor
  · rintro ⟨⟨n, j⟩, hn, hj⟩
    obtain ⟨q, hq, hd⟩ := Option.bind_eq_some_iff.mp hj
    dsimp only at hd
    split_ifs at hd with hnear
    obtain ⟨rfl, rfl⟩ := Prod.mk.inj (Option.some.inj hd)
    exact ⟨n, q, List.mem_zipIdx_iff_getElem?.mp hn, hq, rfl, hnear⟩
  · rintro ⟨n, q, hn, hq, rfl, hnear⟩
    exact ⟨(n, i), List.mem_zipIdx_iff_getElem?.mpr hn,
      Option.bind_eq_some_iff.mpr ⟨q, hq, if_pos hnear⟩⟩

theorem curve?_eq {v : View R S} {e : Edge} {start stop : Point R}
    (hs : v.layout.positions[e.source]? = some start)
    (ht : v.layout.positions[e.target]? = some stop) :
    v.curve? e = some (.between start stop (v.sizing.edge.curvature e.kind)) :=
  Option.bind_eq_some_iff.mpr ⟨start, hs, Option.bind_eq_some_iff.mpr ⟨stop, ht, rfl⟩⟩

theorem mem_edgesNear {v : View R S} {p : Point R} {i : EdgeIdx} {d : R} :
    (i, d) ∈ v.edgesNear p ↔ ∃ e c, v.graph.edge? i = some e ∧ v.curve? e = some c ∧
      d = c.distanceTo (v.camera.toWorld p) ∧ d ≤ v.sizes.edgeHitTolerance := by
  unfold edgesNear
  rw [List.mem_filterMap]
  constructor
  · rintro ⟨⟨e, j⟩, he, hj⟩
    obtain ⟨c, hc, hd⟩ := Option.bind_eq_some_iff.mp hj
    dsimp only at hd
    split_ifs at hd with hnear
    obtain ⟨rfl, rfl⟩ := Prod.mk.inj (Option.some.inj hd)
    exact ⟨e, c, List.mem_zipIdx_iff_getElem?.mp he, hc, rfl, hnear⟩
  · rintro ⟨e, c, he, hc, rfl, hnear⟩
    exact ⟨(e, i), List.mem_zipIdx_iff_getElem?.mpr he,
      Option.bind_eq_some_iff.mpr ⟨c, hc, if_pos hnear⟩⟩

theorem nodeAt?_eq_none {v : View R S} {p : Point R} (h : v.nodesNear p = []) :
    v.nodeAt? p = none := by
  rw [nodeAt?, h]
  rfl

theorem pick_of_edgeAt? {v : View R S} {p : Point R} {i : EdgeIdx} {e : Edge}
    (hn : v.nodeAt? p = none) (h : v.edgeAt? p = some i) (he : v.graph.edge? i = some e) :
    v.pick p = .edge e.id := by
  rw [pick, hn, h, Option.bind_none, Option.bind_some, he]

end View

end TunnelMap
