import Mathlib
import TunnelMap.Proofs.View.Drag
import TunnelMap.Proofs.View.Zoom

/-! The wheel in exact arithmetic. A turn leads to nine or eleven tenths of the zoom, held between a tenth
and ten, and moves the camera by the ratio of the zooms that there really are. So the screen point that
the wheel is turned over keeps its world point at the bounds as well, and a turn against a bound that has
been met does nothing. The zoom is never zero, and sizes that are in order at zoom one are in order at
every zoom above zero, so that the wheel can always be turned. -/

namespace TunnelMap

namespace Camera

theorem zoomAt_mem (c : Camera ℝ) (p : Point ℝ) (turn : ℝ) :
    (c.zoomAt p turn).k ∈ Set.Icc (1 / 10) 10 := by
  rw [zoomAt_zoom]
  exact ⟨le_max_left .., max_le (by norm_num) (min_le_left ..)⟩

/-- Where the zoom is left, so is the camera. -/
theorem zoomAt_eq_self {c : Camera ℝ} {p : Point ℝ} {turn : ℝ} (hk : c.k ≠ 0)
    (h : (c.zoomAt p turn).k = c.k) : c.zoomAt p turn = c := by
  have hratio : (c.zoomAt p turn).k / c.k = 1 := by rw [h, div_self hk]
  have hcoord (a b : ℝ) : a - (a - b) * ((c.zoomAt p turn).k / c.k) = b := by
    rw [hratio]
    ring
  exact congr (congrArg₂ mk (hcoord p.x c.x) (hcoord p.y c.y)) h

/-- A turn towards a bound that the zoom is at leaves the camera. -/
theorem zoomAt_at_bound {c : Camera ℝ} {turn : ℝ} (hleast : 0 < turn → c.k = 1 / 10)
    (hgreatest : ¬ 0 < turn → c.k = 10) (p : Point ℝ) : c.zoomAt p turn = c := by
  by_cases hturn : 0 < turn
  · have hk : c.k = 1 / 10 := hleast hturn
    refine zoomAt_eq_self (by rw [hk]; norm_num) ?_
    rw [zoomAt_zoom, hk, if_pos hturn]
    norm_num
  · have hk : c.k = 10 := hgreatest hturn
    refine zoomAt_eq_self (by rw [hk]; norm_num) ?_
    rw [zoomAt_zoom, hk, if_neg hturn]
    norm_num

/-! ### Turns one after another -/

/-- The wheel is turned over screen points, one after another. -/
def turned {R : Type} [Scalar R] (c : Camera R) (ts : List (Point R × R)) : Camera R :=
  ts.foldl (fun c t => c.zoomAt t.1 t.2) c

@[simp] theorem turned_nil (c : Camera ℝ) : c.turned [] = c := rfl

@[simp] theorem turned_cons (c : Camera ℝ) (t : Point ℝ × ℝ) (ts : List (Point ℝ × ℝ)) :
    c.turned (t :: ts) = (c.zoomAt t.1 t.2).turned ts := rfl

theorem toWorld_turned {p : Point ℝ} {ts : List (Point ℝ × ℝ)} (hts : ∀ t ∈ ts, t.1 = p)
    (c : Camera ℝ) : (c.turned ts).toWorld p = c.toWorld p := by
  induction ts generalizing c with
  | nil => rfl
  | cons t ts ih =>
    obtain ⟨rfl, hrest⟩ := List.forall_mem_cons.mp hts
    rw [turned_cons, ih hrest, toWorld_zoomAt]

/-- A wheel that is turned away again and again leads to its bound, however near the view is. -/
theorem turned_away {c : Camera ℝ} (hk : c.k ∈ Set.Icc (1 / 10) 10) (p : Point ℝ) (n : ℕ) :
    (c.turned (List.replicate n (p, 1))).k = max (1 / 10) (c.k * (9 / 10) ^ n) := by
  induction n generalizing c with
  | zero => simpa using hk.1
  | succ n ih =>
    have hpow : (9 / 10 : ℝ) ^ n ≤ 1 := pow_le_one₀ (by norm_num) (by norm_num)
    have hnext : (c.zoomAt p 1).k = max (1 / 10) (c.k * (9 / 10)) := by
      rw [zoomAt_zoom, if_pos one_pos, min_eq_right (by linarith [hk.2])]
    calc (c.turned (List.replicate (n + 1) (p, 1))).k
        = max (1 / 10) (max (1 / 10) (c.k * (9 / 10)) * (9 / 10) ^ n) := by
          rw [List.replicate_succ, turned_cons, ih (c.zoomAt_mem p 1), hnext]
      _ = max (max (1 / 10) (1 / 10 * (9 / 10) ^ n)) (c.k * (9 / 10) * (9 / 10) ^ n) := by
          rw [max_mul_of_nonneg _ _ (by positivity), max_assoc]
      _ = max (1 / 10) (c.k * (9 / 10) ^ (n + 1)) := by
          rw [max_eq_left (a := (1 / 10 : ℝ)) (by linarith), mul_assoc, ← pow_succ']

end Camera

/-! ### Sizes in order -/

theorem Extent.exists_apply?_real {e : Extent ℝ} {base k : ℝ} (hk : 0 < k)
    (h : ∃ r, e.apply? base (Scalar.ofNat 1) = some r) : ∃ r, e.apply? base k = some r := by
  cases e with
  | world => exact ⟨_, rfl⟩
  | screen => exact ⟨_, rfl⟩
  | clamped min max =>
    have hone : min / Scalar.ofNat 1 ≤ max / Scalar.ofNat 1 := Scalar.exists_clamp?.mp h
    rw [Scalar.ofNat_real, Nat.cast_one, div_one, div_one] at hone
    exact Scalar.exists_clamp?.mpr (div_le_div_of_nonneg_right hone hk.le)

theorem Sizing.exists_sizesAt?_real {s : Sizing ℝ} {k : ℝ} (hk : 0 < k)
    (h : ∃ sizes, s.sizesAt? (Scalar.ofNat 1) = some sizes) : ∃ sizes, s.sizesAt? k = some sizes := by
  obtain ⟨hlabel, hradius, hhit⟩ := exists_sizesAt?.mp h
  exact exists_sizesAt?.mpr
    ⟨hlabel, Extent.exists_apply?_real hk hradius, Extent.exists_apply?_real hk hhit⟩

namespace View

variable {S : Type} [Engine S] [Precision ℝ S]

theorem Reachable.zoom_mem {v : View ℝ S} (h : v.Reachable) : v.camera.k ∈ Set.Icc (1 / 10) 10 := by
  induction h with
  | start _ hs =>
    obtain ⟨sizes, -, hv, -⟩ := start?_eq_some hs
    rw [hv]
    dsimp only
    rw [Scalar.one_real]
    norm_num
  | @perform v op o _ _ ho ih =>
    rw [perform?_zoom ho]
    cases op with
    | zoom p turn => exact v.camera.zoomAt_mem p turn
    | _ => exact ih

/-- The wheel can always be turned, and it leads to a view that can come about. -/
theorem Reachable.exists_turn {v : View ℝ S} (h : v.Reachable) (p : Point ℝ) (turn : ℝ) :
    ∃ w, v.zoomAt? p turn = some w ∧ w.Reachable ∧ w.camera = v.camera.zoomAt p turn := by
  obtain ⟨w, hw⟩ : ∃ w, v.zoomAt? p turn = some w := exists_zoomAt?_of_sizes
    (Sizing.exists_sizesAt?_real (v.camera.zoomAt_pos p turn) h.sizesAt_one)
  have hop : (.zoom p turn : Operation ℝ S).FromSnapshot := trivial
  obtain ⟨sizes', hzoomed⟩ := zoomAt?_eq_some hw
  exact ⟨w, hw, .perform h hop (Option.map_eq_some_iff.mpr ⟨w, hw, rfl⟩), by rw [hzoomed]⟩

/-- The operations of a wheel that is turned over screen points, one after another. -/
def turns (ts : List (Point ℝ × ℝ)) : List (Operation ℝ S) := ts.map fun t => .zoom t.1 t.2

theorem Reachable.exists_turns {v : View ℝ S} (h : v.Reachable) (ts : List (Point ℝ × ℝ)) :
    ∃ r, Outcome.run? { value := v } (turns ts) = some r ∧ r.value.Reachable ∧
      r.value.camera = v.camera.turned ts := by
  induction ts generalizing v with
  | nil => exact ⟨_, rfl, h, rfl⟩
  | cons t ts ih =>
    obtain ⟨w, hw, hreach, hcamera⟩ := h.exists_turn t.1 t.2
    obtain ⟨r, hr, hr', hfinal⟩ := ih hreach
    refine ⟨r, Outcome.run?_cons.mpr ⟨_, perform?_of_zoomAt? hw, hr⟩, hr', ?_⟩
    rw [hfinal, hcamera, Camera.turned_cons]

/-- In every view that can come about, the wheel can be turned, over every screen point and as often as
one likes. The screen point keeps its world point, the zoom stays within its bounds, and so off zero, and
a turn towards a bound that has been met leaves the camera. -/
theorem Reachable.zooms_about_pointer {v : View ℝ S} (hv : v.Reachable) :
    v.camera.k ∈ Set.Icc (1 / 10) 10 ∧
      (∀ p turn, ∃ w, v.zoomAt? p turn = some w ∧ w.camera.k ∈ Set.Icc (1 / 10) 10 ∧
        w.camera.toWorld p = v.camera.toWorld p ∧
        ((0 < turn → v.camera.k = 1 / 10) → (¬ 0 < turn → v.camera.k = 10) →
          w.camera = v.camera)) ∧
      ∀ ts, ∃ r, Outcome.run? { value := v } (turns ts) = some r ∧
        r.value.camera.k ∈ Set.Icc (1 / 10) 10 ∧
        ∀ p, (∀ t ∈ ts, t.1 = p) → r.value.camera.toWorld p = v.camera.toWorld p := by
  refine ⟨hv.zoom_mem, fun p turn => ?_, fun ts => ?_⟩
  · obtain ⟨w, hw, hreach, hcamera⟩ := hv.exists_turn p turn
    refine ⟨w, hw, hreach.zoom_mem, ?_, fun hleast hgreatest => ?_⟩
    · rw [hcamera, Camera.toWorld_zoomAt]
    · rw [hcamera, Camera.zoomAt_at_bound hleast hgreatest]
  · obtain ⟨r, hr, hreach, hcamera⟩ := hv.exists_turns ts
    refine ⟨r, hr, hreach.zoom_mem, fun p hp => ?_⟩
    rw [hcamera, Camera.toWorld_turned hp]

/-- The wheel is turned away over one screen point until it meets its bound, and once more. -/
theorem zooms_about_pointer_to_bound : ∃ (v w : View ℝ ℝ) (p : Point ℝ) (r : Outcome (View ℝ ℝ)),
    v.Reachable ∧ v.camera = ⟨0, 0, 1⟩ ∧
      Outcome.run? { value := v } (turns (List.replicate 22 (p, 1))) = some r ∧
      r.value.camera.k = 1 / 10 ∧ r.value.camera.toWorld p = p ∧ p = ⟨1, 0⟩ ∧
      r.value.zoomAt? p 1 = some w ∧ w.camera = r.value.camera := by
  obtain ⟨v, hreach, hcamera, -⟩ := exists_ground (S := ℝ)
  let p : Point ℝ := ⟨1, 0⟩
  obtain ⟨-, -, hturns⟩ := hreach.zooms_about_pointer
  obtain ⟨r, hr, -, hshows⟩ := hturns (List.replicate 22 (p, 1))
  obtain ⟨r', hr', hreach', hturned⟩ := hreach.exists_turns (List.replicate 22 (p, 1))
  obtain rfl : r = r' := Option.some.inj (hr.symm.trans hr')
  have hbound : r.value.camera.k = 1 / 10 := by
    rw [hturned, Camera.turned_away hreach.zoom_mem, hcamera]
    norm_num
  obtain ⟨-, hturn, -⟩ := hreach'.zooms_about_pointer
  obtain ⟨w, hw, -, -, hleft⟩ := hturn p 1
  refine ⟨v, w, p, r, hreach, hcamera, hr, hbound, ?_, rfl, hw,
    hleft (fun _ => hbound) fun h => (h one_pos).elim⟩
  rw [hshows p fun t ht => by rw [List.eq_of_mem_replicate ht], hcamera]
  simp [Camera.toWorld, p]

end View

end TunnelMap
