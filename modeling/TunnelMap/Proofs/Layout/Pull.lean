import TunnelMap.Proofs.Geometry.Curve
import TunnelMap.Proofs.Layout.Share

/-! The step of one link, in exact arithmetic. A correction is shared between the free ends along the way
from one to the other, so the step scales that way: its length goes to a mean of the length and the rest
length, weighted by the heat, the strength of the link and the shares of the free ends. The weight is
between zero and one, and the link goes towards its rest length and not past it. The shares are such that
two free ends, each weighted by the number of its edges, keep their common centre; so a pass over all
links of a layout without pins keeps the centre of all nodes. -/

namespace TunnelMap

theorem Point.dist_of_scaled {p q p' q' : Point ℝ} {r : ℝ} (hx : p'.x - q'.x = (p.x - q.x) * r)
    (hy : p'.y - q'.y = (p.y - q.y) * r) : p'.dist q' = |r| * p.dist q := by
  rw [dist, hx, hy, hypot_mul]
  rfl

namespace Layout

/-! ### Which places a step changes -/

section

variable {R : Type} [Scalar R] {alpha : R} {pinned : List Bool} {k : Link R} {ps : List (Point R)}
  {s t c : Point R}

theorem drawLink_of_none (hs : ps[k.source]? = some s) (ht : ps[k.target]? = some t)
    (hc : correction? alpha k s t = none) : drawLink alpha pinned ps k = ps := by
  simp only [drawLink, hs, ht, hc]

/-- Each end of a link takes its share of a correction, unless it is pinned. -/
theorem drawLink_ends (hs : ps[k.source]? = some s) (ht : ps[k.target]? = some t)
    (hc : correction? alpha k s t = some c) (hne : k.source ≠ k.target) {a b : Bool}
    (ha : pinned[k.source]? = some a) (hb : pinned[k.target]? = some b) :
    (drawLink alpha pinned ps k)[k.source]? = some (if a then s else drawSource k c s) ∧
      (drawLink alpha pinned ps k)[k.target]? = some (if b then t else drawTarget k c t) := by
  simp only [drawLink, hs, ht, hc, ha, hb, Option.getD_some]
  cases a <;> cases b <;> simp [hs, ht, hne, hne.symm]

theorem drawLink_elsewhere {i : NodeIdx} (hs : i ≠ k.source) (ht : i ≠ k.target) :
    (drawLink alpha pinned ps k)[i]? = ps[i]? := by
  unfold drawLink
  split
  · split
    · dsimp only
      split_ifs <;> simp [hs.symm, ht.symm]
    · rfl
  · rfl

end

/-! ### Lengths -/

theorem minLength_real : (minLength : ℝ) = 1 / 10 ^ 6 :=
  (Scalar.ofDecimal_real 1 6).trans (by norm_num)

/-- The share of a correction that the free ends of a link take. -/
noncomputable def given (pinned : List Bool) (k : Link ℝ) : ℝ :=
  (if pinned[k.target]? = some true then 0 else k.bias) +
    if pinned[k.source]? = some true then 0 else 1 - k.bias

/-- The share of its error that a link makes good in a step. -/
noncomputable def gain (alpha : ℝ) (pinned : List Bool) (k : Link ℝ) : ℝ :=
  alpha * k.params.strength * given pinned k

variable {alpha : ℝ} {pinned : List Bool} {k : Link ℝ} {ps : List (Point ℝ)} {s t : Point ℝ}

theorem gain_mem (hbias : k.bias ∈ Set.Ioo 0 1) (hheat : alpha * k.params.strength ∈ Set.Icc 0 1) :
    gain alpha pinned k ∈ Set.Icc 0 1 := by
  have hgiven : given pinned k ∈ Set.Icc 0 1 := by
    unfold given
    split_ifs <;> constructor <;> linarith [hbias.1, hbias.2]
  exact ⟨mul_nonneg hheat.1 hgiven.1, mul_le_one₀ hheat.2 hgiven.1 hgiven.2⟩

/-- How much of the way from source to target is taken back, by the share that the ends take. -/
noncomputable def pull (alpha : ℝ) (k : Link ℝ) (len : ℝ) : ℝ :=
  (len - k.params.distance) / len * alpha * k.params.strength

/-- The correction of a link that is long enough to have one. -/
noncomputable def correction (alpha : ℝ) (k : Link ℝ) (s t : Point ℝ) : Point ℝ :=
  ⟨(t.x - s.x) * pull alpha k (t.dist s), (t.y - s.y) * pull alpha k (t.dist s)⟩

theorem correction?_long (h : 1 / 10 ^ 6 ≤ t.dist s) :
    correction? alpha k s t = some (correction alpha k s t) :=
  if_neg (not_lt.mpr (minLength_real.trans_le h))

theorem correction?_short (h : t.dist s < 1 / 10 ^ 6) : correction? alpha k s t = none :=
  if_pos (h.trans_eq minLength_real.symm)

/-- A weighted mean is between the two numbers. -/
theorem mean_mem_uIcc {m : ℝ} (hm : m ∈ Set.Icc 0 1) (a b : ℝ) :
    (1 - m) * a + m * b ∈ Set.uIcc a b := by
  rcases le_total a b with hab | hab
  · rw [Set.uIcc_of_le hab]
    constructor <;> nlinarith [hm.1, hm.2]
  · rw [Set.uIcc_of_ge hab]
    constructor <;> nlinarith [hm.1, hm.2]

/-- The length of a scaled way is a mean of the length before and the rest length. -/
theorem scaled_length {len : ℝ} (hlen : len ≠ 0) :
    (1 - pull alpha k len * given pinned k) * len =
      (1 - gain alpha pinned k) * len + gain alpha pinned k * k.params.distance := by
  unfold pull gain
  field_simp
  ring

/-! ### Ends -/

/-- Between the places that the ends take, the way is scaled. -/
theorem across_drawn {a b : Bool} (ha : pinned[k.source]? = some a) (hb : pinned[k.target]? = some b)
    (alpha : ℝ) (s t : Point ℝ) :
    let c := correction alpha k s t
    let s' := if a then s else drawSource k c s
    let t' := if b then t else drawTarget k c t
    t'.x - s'.x = (t.x - s.x) * (1 - pull alpha k (t.dist s) * given pinned k) ∧
      t'.y - s'.y = (t.y - s.y) * (1 - pull alpha k (t.dist s) * given pinned k) := by
  cases a <;> cases b <;> simp [given, correction, ha, hb, drawSource, drawTarget, Scalar.one_real] <;>
    constructor <;> ring

/-- The places that the ends of a long link take. -/
theorem drawLink_long (alpha : ℝ) (hs : ps[k.source]? = some s) (ht : ps[k.target]? = some t) {a b : Bool}
    (ha : pinned[k.source]? = some a) (hb : pinned[k.target]? = some b)
    (hlong : 1 / 10 ^ 6 ≤ t.dist s) :
    let c := correction alpha k s t
    (drawLink alpha pinned ps k)[k.source]? = some (if a then s else drawSource k c s) ∧
      (drawLink alpha pinned ps k)[k.target]? = some (if b then t else drawTarget k c t) := by
  have hne : k.source ≠ k.target := by
    intro heq
    obtain rfl : s = t := Option.some.inj (hs.symm.trans (heq ▸ ht))
    rw [Point.dist_self] at hlong
    norm_num at hlong
  exact drawLink_ends hs ht (correction?_long hlong) hne ha hb

/-- The centre of two places by their weights. -/
noncomputable def centre (w v : ℝ) (p q : Point ℝ) : Point ℝ :=
  ⟨(w * p.x + v * q.x) / (w + v), (w * p.y + v * q.y) / (w + v)⟩

/-- What the source takes by its weight, the target takes by its own. -/
theorem drawn_balance {w v : ℝ} (hshare : w * (1 - k.bias) = v * k.bias) (c s t : Point ℝ) :
    w * (drawSource k c s).x + v * (drawTarget k c t).x = w * s.x + v * t.x ∧
      w * (drawSource k c s).y + v * (drawTarget k c t).y = w * s.y + v * t.y := by
  simp only [drawSource, drawTarget, Scalar.one_real]
  constructor
  · linear_combination c.x * hshare
  · linear_combination c.y * hshare

/-! ### A step -/

/-- What a step makes of places, in particular of those of the ends of its link. -/
structure Eased (g : Graph) (alpha : ℝ) (pinned : List Bool) (k : Link ℝ) (ps : List (Point ℝ))
    (s t s' t' : Point ℝ) : Prop where
  source : ps[k.source]? = some s
  target : ps[k.target]? = some t
  source' : (drawLink alpha pinned ps k)[k.source]? = some s'
  target' : (drawLink alpha pinned ps k)[k.target]? = some t'
  gain_mem : gain alpha pinned k ∈ Set.Icc 0 1
  length : 1 / 10 ^ 6 ≤ t.dist s →
    t'.dist s' = (1 - gain alpha pinned k) * t.dist s + gain alpha pinned k * k.params.distance
  between : 1 / 10 ^ 6 ≤ t.dist s → t'.dist s' ∈ Set.uIcc (t.dist s) k.params.distance
  centre_eq : pinned[k.source]? = some false → pinned[k.target]? = some false →
    centre (g.incident k.source).length (g.incident k.target).length s' t' =
      centre (g.incident k.source).length (g.incident k.target).length s t
  moved : ∀ i, (drawLink alpha pinned ps k)[i]? ≠ ps[i]? →
    (i = k.source ∨ i = k.target) ∧ pinned[i]? = some false
  still : k.source = k.target ∨ t.dist s < 1 / 10 ^ 6 → drawLink alpha pinned ps k = ps

theorem drawLink_still (hs : ps[k.source]? = some s) (ht : ps[k.target]? = some t)
    (h : k.source = k.target ∨ t.dist s < 1 / 10 ^ 6) : drawLink alpha pinned ps k = ps := by
  have hshort : t.dist s < 1 / 10 ^ 6 := by
    rcases h with heq | hshort
    · obtain rfl : s = t := Option.some.inj (hs.symm.trans (heq ▸ ht))
      rw [Point.dist_self]
      norm_num
    · exact hshort
  exact drawLink_of_none hs ht (correction?_short hshort)

theorem drawLink_moved (hs : k.source < pinned.length) (ht : k.target < pinned.length) {i : NodeIdx}
    (hi : (drawLink alpha pinned ps k)[i]? ≠ ps[i]?) :
    (i = k.source ∨ i = k.target) ∧ pinned[i]? = some false := by
  have hend : i = k.source ∨ i = k.target := by
    by_contra hno
    obtain ⟨hs', ht'⟩ := not_or.mp hno
    exact hi (drawLink_elsewhere hs' ht')
  have hlt : i < pinned.length := by
    rcases hend with rfl | rfl
    · exact hs
    · exact ht
  refine ⟨hend, ?_⟩
  rw [List.getElem?_eq_getElem hlt, Option.some.injEq, Bool.eq_false_iff]
  intro hpin
  exact hi (drawLink_pinned alpha pinned (by rw [List.getElem?_eq_getElem hlt, hpin]) ps k)

/-- The length of a long link after a step. -/
theorem length_drawn (hbias : k.bias ∈ Set.Ioo 0 1) (hrest : 0 ≤ k.params.distance)
    (hheat : alpha * k.params.strength ∈ Set.Icc 0 1) (hlong : 1 / 10 ^ 6 ≤ t.dist s)
    {s' t' : Point ℝ}
    (hx : t'.x - s'.x = (t.x - s.x) * (1 - pull alpha k (t.dist s) * given pinned k))
    (hy : t'.y - s'.y = (t.y - s.y) * (1 - pull alpha k (t.dist s) * given pinned k)) :
    t'.dist s' = (1 - gain alpha pinned k) * t.dist s + gain alpha pinned k * k.params.distance := by
  have hlen : 0 < t.dist s := lt_of_lt_of_le (by norm_num) hlong
  have hgain : gain alpha pinned k ∈ Set.Icc 0 1 := gain_mem hbias hheat
  have hmean : 0 ≤ (1 - gain alpha pinned k) * t.dist s + gain alpha pinned k * k.params.distance :=
    add_nonneg (mul_nonneg (sub_nonneg.mpr hgain.2) hlen.le) (mul_nonneg hgain.1 hrest)
  calc t'.dist s'
    _ = |1 - pull alpha k (t.dist s) * given pinned k| * t.dist s := Point.dist_of_scaled hx hy
    _ = |(1 - gain alpha pinned k) * t.dist s + gain alpha pinned k * k.params.distance| := by
      rw [← scaled_length hlen.ne', abs_mul, abs_of_pos hlen]
    _ = _ := abs_of_nonneg hmean

section

variable {S : Type} {l : Layout ℝ S} {g : Graph} (hg : g.Sound) (hl : l.Linked g) (hk : k ∈ l.links)

include hg hl hk

/-- What a link of a layout has from its edge. -/
theorem Linked.ends : k.source < g.nodes.length ∧ k.target < g.nodes.length ∧ k.bias ∈ Set.Ioo 0 1 ∧
    ((g.incident k.source).length : ℝ) * (1 - k.bias) = (g.incident k.target).length * k.bias := by
  obtain ⟨e, he, hsource, htarget, hbias⟩ := hl.exists_edge hk
  rw [hsource, htarget, hbias]
  exact ⟨hg.source_lt he, hg.target_lt he, share_mem hg he, share_balance hg he⟩

theorem Linked.exists_eased (hrest : 0 ≤ k.params.distance)
    (hheat : l.alpha * k.params.strength ∈ Set.Icc 0 1) (hps : ps.length = g.nodes.length) :
    ∃ s t s' t', Eased g l.alpha l.pinned k ps s t s' t' := by
  obtain ⟨hsource, htarget, hbias, hbalance⟩ := hl.ends hg hk
  obtain ⟨s, hs⟩ : ∃ s, ps[k.source]? = some s := ⟨_, List.getElem?_eq_getElem (hps ▸ hsource)⟩
  obtain ⟨t, ht⟩ : ∃ t, ps[k.target]? = some t := ⟨_, List.getElem?_eq_getElem (hps ▸ htarget)⟩
  obtain ⟨a, ha⟩ : ∃ a, l.pinned[k.source]? = some a :=
    ⟨_, List.getElem?_eq_getElem (hl.pinned ▸ hsource)⟩
  obtain ⟨b, hb⟩ : ∃ b, l.pinned[k.target]? = some b :=
    ⟨_, List.getElem?_eq_getElem (hl.pinned ▸ htarget)⟩
  have hgain : gain l.alpha l.pinned k ∈ Set.Icc 0 1 := gain_mem hbias hheat
  have hmoved (i : NodeIdx) (hi : (drawLink l.alpha l.pinned ps k)[i]? ≠ ps[i]?) :=
    drawLink_moved (hl.pinned ▸ hsource) (hl.pinned ▸ htarget) hi
  have hstill (h : k.source = k.target ∨ t.dist s < 1 / 10 ^ 6) :
      drawLink l.alpha l.pinned ps k = ps := drawLink_still hs ht h
  rcases lt_or_ge (t.dist s) (1 / 10 ^ 6) with hshort | hlong
  · have hsame : drawLink l.alpha l.pinned ps k = ps := hstill (.inr hshort)
    exact ⟨s, t, s, t, hs, ht, by rw [hsame, hs], by rw [hsame, ht], hgain,
      fun h => absurd hshort h.not_gt, fun h => absurd hshort h.not_gt, fun _ _ => rfl, hmoved, hstill⟩
  · obtain ⟨hs', ht'⟩ := drawLink_long l.alpha hs ht ha hb hlong
    obtain ⟨hx, hy⟩ := across_drawn ha hb l.alpha s t
    have hlength := length_drawn hbias hrest hheat hlong hx hy
    refine ⟨s, t, _, _, hs, ht, hs', ht', hgain, fun _ => hlength,
      fun _ => hlength ▸ mean_mem_uIcc hgain _ _, fun hfree hfree' => ?_, hmoved, hstill⟩
    obtain rfl : a = false := Option.some.inj (ha.symm.trans hfree)
    obtain rfl : b = false := Option.some.inj (hb.symm.trans hfree')
    obtain ⟨hcx, hcy⟩ := drawn_balance hbalance (correction l.alpha k s t) s t
    rw [centre, centre, ← hcx, ← hcy]
    rfl

end

/-! ### A pass over all links -/

/-- A coordinate of the places of all nodes, each taken as often as the node has edges. -/
noncomputable def moment (g : Graph) (f : Point ℝ → ℝ) (ps : List (Point ℝ)) : ℝ :=
  ∑ i ∈ Finset.range g.nodes.length, (g.incident i).length * f (ps[i]?.getD .origin)

/-- Two places that change and keep their sum by weight keep the sum over all places. -/
theorem moment_of_ends {g : Graph} {f : Point ℝ → ℝ} {ps qs : List (Point ℝ)} {i j : NodeIdx}
    (hij : i ≠ j) (hi : i < g.nodes.length) (hj : j < g.nodes.length) {s t s' t' : Point ℝ}
    (hs : ps[i]? = some s) (ht : ps[j]? = some t) (hs' : qs[i]? = some s') (ht' : qs[j]? = some t')
    (helse : ∀ n, n ≠ i → n ≠ j → qs[n]? = ps[n]?)
    (hsum : (g.incident i).length * f s' + (g.incident j).length * f t' =
      (g.incident i).length * f s + (g.incident j).length * f t) :
    moment g f qs = moment g f ps := by
  have hdiff : moment g f qs - moment g f ps =
      ((g.incident i).length * f s' - (g.incident i).length * f s) +
        ((g.incident j).length * f t' - (g.incident j).length * f t) := by
    rw [moment, moment, ← Finset.sum_sub_distrib, Finset.sum_eq_add i j hij]
    · rw [hs, ht, hs', ht']
      rfl
    · rintro n - ⟨hni, hnj⟩
      rw [helse n hni hnj, sub_self]
    · exact fun h => absurd (Finset.mem_range.mpr hi) h
    · exact fun h => absurd (Finset.mem_range.mpr hj) h
  linarith

section

variable {S : Type} {l : Layout ℝ S} {g : Graph} (hg : g.Sound) (hl : l.Linked g)
  (hfree : ∀ b ∈ l.pinned, b = false)

include hg hl hfree

theorem Linked.moment_drawLink (hk : k ∈ l.links) (hps : ps.length = g.nodes.length) :
    moment g Point.x (drawLink l.alpha l.pinned ps k) = moment g Point.x ps ∧
      moment g Point.y (drawLink l.alpha l.pinned ps k) = moment g Point.y ps := by
  obtain ⟨hsource, htarget, -, hbalance⟩ := hl.ends hg hk
  obtain ⟨s, hs⟩ : ∃ s, ps[k.source]? = some s := ⟨_, List.getElem?_eq_getElem (hps ▸ hsource)⟩
  obtain ⟨t, ht⟩ : ∃ t, ps[k.target]? = some t := ⟨_, List.getElem?_eq_getElem (hps ▸ htarget)⟩
  have free (i : NodeIdx) (hi : i < g.nodes.length) : l.pinned[i]? = some false := by
    have hlt : i < l.pinned.length := hl.pinned ▸ hi
    rw [List.getElem?_eq_getElem hlt, hfree _ (List.getElem_mem hlt)]
  by_cases hstill : k.source = k.target ∨ t.dist s < 1 / 10 ^ 6
  · rw [drawLink_still hs ht hstill]
    exact ⟨rfl, rfl⟩
  · obtain ⟨hne, hlong⟩ := not_or.mp hstill
    obtain ⟨hs', ht'⟩ := drawLink_long l.alpha hs ht (free _ hsource) (free _ htarget)
      (not_lt.mp hlong)
    obtain ⟨hx, hy⟩ := drawn_balance hbalance (correction l.alpha k s t) s t
    have helse (n : NodeIdx) (hn : n ≠ k.source) (hn' : n ≠ k.target) :
        (drawLink l.alpha l.pinned ps k)[n]? = ps[n]? := drawLink_elsewhere hn hn'
    exact ⟨moment_of_ends hne hsource htarget hs ht hs' ht' helse hx,
      moment_of_ends hne hsource htarget hs ht hs' ht' helse hy⟩

theorem Linked.moment_foldl {ks : List (Link ℝ)} (hks : ∀ k ∈ ks, k ∈ l.links)
    (hps : ps.length = g.nodes.length) :
    moment g Point.x (ks.foldl (drawLink l.alpha l.pinned) ps) = moment g Point.x ps ∧
      moment g Point.y (ks.foldl (drawLink l.alpha l.pinned) ps) = moment g Point.y ps := by
  induction ks generalizing ps with
  | nil => exact ⟨rfl, rfl⟩
  | cons k ks ih =>
    obtain ⟨hk, hks⟩ := List.forall_mem_cons.mp hks
    obtain ⟨hx, hy⟩ := hl.moment_drawLink hg hfree hk hps
    obtain ⟨hx', hy'⟩ := ih hks ((length_drawLink ..).trans hps)
    exact ⟨hx'.trans hx, hy'.trans hy⟩

/-- A pass over the links of a layout without pins keeps the centre of all nodes, each weighted by the
number of its edges. -/
theorem Linked.moment_applyLinks : moment g Point.x l.applyLinks.positions = moment g Point.x l.positions ∧
    moment g Point.y l.applyLinks.positions = moment g Point.y l.positions :=
  hl.moment_foldl hg hfree (fun _ hk => hk) hl.positions

end

/-- In every layout of a graph, whatever was done to it, each link of an edge is taken in turn. Whatever the
places and pins are then, its step makes good a share of the error of its length, out of no more than the
places of its free ends; it keeps their centre by edges if both are free, and does nothing to a loop or to
ends that are next to each other. -/
theorem links_eased {g : Graph} (hg : g.OfSnapshot) {S : Type} [Engine S] [Precision ℝ S] :
    (∀ t as, ((ofGraph g t : Layout ℝ S).run g as).Linked g) ∧
      ∀ l : Layout ℝ S, l.Linked g → ∀ k ∈ l.links, 0 ≤ k.params.distance →
        l.alpha * k.params.strength ∈ Set.Icc 0 1 →
        (∀ ps : List (Point ℝ), ps.length = g.nodes.length →
          ∃ s t s' t', Eased g l.alpha l.pinned k ps s t s' t') ∧
        ∀ before after, l.links = before ++ k :: after →
          let ps := before.foldl (drawLink l.alpha l.pinned) l.positions
          ps.length = g.nodes.length ∧ l.applyLinks.positions =
            after.foldl (drawLink l.alpha l.pinned) (drawLink l.alpha l.pinned ps k) := by
  refine ⟨fun t as => linked_run g t as, fun l hl k hk hrest hheat => ⟨fun ps hps => ?_, ?_⟩⟩
  · exact hl.exists_eased hg.sound hk hrest hheat hps
  · intro before after hlinks ps
    refine ⟨(length_foldl_drawLink ..).trans hl.positions, ?_⟩
    rw [applyLinks, hlinks, List.foldl_append]
    rfl

/-- Of two edges at a pinned node, one has a link that is too long. Two thirds of the correction fall to its
other end, and half of the error would be made good: its length goes a third of the way. -/
theorem links_eased_at_pin :
    ∃ (g : Graph) (l : Layout ℝ ℝ) (k : Link ℝ) (ps : List (Point ℝ)) (t : Point ℝ), g.OfSnapshot ∧
      k ∈ l.links ∧ k.params = ⟨4, 1 / 2⟩ ∧ l.alpha = 1 ∧ l.pinned = [true, false, false] ∧
      ps = [⟨0, 0⟩, ⟨10, 0⟩, ⟨0, 7⟩] ∧ (drawLink l.alpha l.pinned ps k)[0]? = some ⟨0, 0⟩ ∧
      (drawLink l.alpha l.pinned ps k)[1]? = some t ∧ t.dist ⟨0, 0⟩ = 8 ∧
      (drawLink l.alpha l.pinned ps k)[2]? = some ⟨0, 7⟩ := by
  let a : NodeEntry := ⟨⟨"a"⟩, .interface, {}⟩
  let b : NodeEntry := ⟨⟨"b"⟩, .interface, {}⟩
  let c : NodeEntry := ⟨⟨"c"⟩, .interface, {}⟩
  let e : Edge := ⟨⟨"e"⟩, 0, 1, .peer, {}⟩
  let g : Graph := .ofParts [a.node, b.node, c.node] [e, ⟨⟨"f"⟩, 0, 2, .peer, {}⟩]
  let l : Layout ℝ ℝ := (ofGraph g .standard).run g
    [.pin 0 ⟨0, 0⟩, .order (.setLink 0 ⟨4, 1 / 2⟩), .order .reheat]
  let k : Link ℝ := { linkOf .standard g e with params := ⟨4, 1 / 2⟩ }
  let ps : List (Point ℝ) := [⟨0, 0⟩, ⟨10, 0⟩, ⟨0, 7⟩]
  have hg : g.OfSnapshot :=
    ⟨⟨[a, b, c], [⟨⟨"e"⟩, a.id, b.id, none, {}⟩, ⟨⟨"f"⟩, a.id, c.id, none, {}⟩]⟩, rfl⟩
  have hk : k ∈ l.links := List.mem_of_getElem? (i := 0) rfl
  have halpha : l.alpha = 1 := Scalar.one_real
  have hpinned : l.pinned = [true, false, false] := rfl
  have hgain : gain l.alpha l.pinned k = 1 / 3 := by
    have hbias : k.bias = ((2 : ℕ) : ℝ) / ((2 : ℕ) + (1 : ℕ)) := rfl
    have hends : k.source = 0 ∧ k.target = 1 := ⟨rfl, rfl⟩
    have hstrength : k.params.strength = 1 / 2 := rfl
    simp only [gain, given, halpha, hpinned, hbias, hends, hstrength]
    norm_num
  obtain ⟨hlinked, heased⟩ := links_eased hg (S := ℝ)
  obtain ⟨hstep, -⟩ := heased l (hlinked _ _) k hk (by norm_num [k]) (by rw [halpha]; norm_num [k])
  obtain ⟨s, t, s', t', h⟩ := hstep ps rfl
  obtain rfl : ⟨0, 0⟩ = s := Option.some.inj h.source
  obtain rfl : ⟨10, 0⟩ = t := Option.some.inj h.target
  have stays (i : ℕ) (hi : ¬ ((i = 0 ∨ i = 1) ∧ l.pinned[i]? = some false)) :
      (drawLink l.alpha l.pinned ps k)[i]? = ps[i]? := by
    by_contra hmoved
    exact hi (h.moved i hmoved)
  have hsource : (drawLink l.alpha l.pinned ps k)[0]? = some ⟨0, 0⟩ := stays 0 (by simp [hpinned])
  obtain rfl : s' = ⟨0, 0⟩ := Option.some.inj (h.source'.symm.trans hsource)
  have hten : (⟨10, 0⟩ : Point ℝ).dist ⟨0, 0⟩ = 10 := by
    simpa using Point.dist_across ⟨0, 0⟩ (by norm_num : (0 : ℝ) ≤ 10)
  refine ⟨g, l, k, ps, t', hg, hk, rfl, halpha, hpinned, rfl, hsource, h.target', ?_, stays 2 (by simp)⟩
  rw [h.length (by rw [hten]; norm_num), hgain, hten]
  norm_num [k]

end Layout

end TunnelMap
