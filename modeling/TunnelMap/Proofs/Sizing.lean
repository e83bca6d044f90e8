import TunnelMap.Proofs.Scalar.Extended
import TunnelMap.Sizing

/-! Sizes on the screen. What is drawn at zoom `k` comes out `k` times as large, so the sizes on the
screen are those of `Sizes` times `k`. In exact arithmetic they are what the sizing declares: a width in
pixels is the same at all zooms, a radius in the world grows with the zoom, and one with bounds is held
between them in pixels, not in units of the world. -/

namespace TunnelMap

variable {k k' : ℝ}

/-! ### From the world to the screen -/

theorem div_zoom_mul (hk : 0 < k) (x : EReal) : x / k * k = x :=
  EReal.div_mul_cancel (EReal.coe_ne_bot k) (EReal.coe_ne_top k) (EReal.coe_ne_zero.mpr hk.ne')

theorem monotone_mul_zoom (hk : 0 < k) : Monotone fun x : EReal => x * k :=
  fun _ _ h => mul_le_mul_of_nonneg_right h (EReal.coe_nonneg.mpr hk.le)

namespace Extent

/-- The bounds of a size are in order. -/
def Ordered : Extent EReal → Prop
  | .world | .screen => True
  | .clamped lo hi => lo ≤ hi

/-- What a base size comes to on the screen. -/
noncomputable def onScreen (e : Extent EReal) (base k : EReal) : EReal :=
  match e with
  | .world => base * k
  | .screen => base
  | .clamped lo hi => max lo (min hi (base * k))

variable [NaturalLog]

/-- The bounds are held on the screen, though what is clamped is a size in the world. -/
theorem exists_apply?_onScreen {e : Extent EReal} (he : e.Ordered) (base : EReal) (hk : 0 < k) :
    ∃ r, e.apply? base k = some r ∧ r * k = e.onScreen base k := by
  cases e with
  | world => exact ⟨base, rfl, rfl⟩
  | screen => exact ⟨base / k, rfl, div_zoom_mul hk base⟩
  | clamped lo hi =>
    have hbounds : lo / k ≤ hi / k := EReal.div_le_div_right_of_nonneg (EReal.coe_nonneg.mpr hk.le) he
    have hmono := monotone_mul_zoom hk
    refine ⟨_, if_pos hbounds, ?_⟩
    calc Scalar.clamp (lo / k) (hi / k) base * k
        = max (lo / k) (min (hi / k) base) * k := by rw [Scalar.clamp_extended hbounds]
      _ = max (lo / k * k) (min (hi / k * k) (base * k)) := by rw [hmono.map_max, hmono.map_min]
      _ = max lo (min hi (base * k)) := by rw [div_zoom_mul hk, div_zoom_mul hk]

end Extent

/-! ### Names -/

namespace LabelSizing

variable [NaturalLog] {l : LabelSizing EReal}

/-- The size of a name on the screen if its bounds are in order. -/
noncomputable def onScreen (l : LabelSizing EReal) (k : EReal) : EReal :=
  max l.minPx (min l.maxPx (l.size * NaturalLog.ln (1 + k) / (Scalar.ln2 : ℝ)))

theorem screenPx?_eq (hl : l.minPx ≤ l.maxPx) (k : EReal) : l.screenPx? k = some (l.onScreen k) := by
  rw [screenPx?, Scalar.clamp?, if_pos hl, Scalar.clamp_extended hl, Scalar.one_extended]
  rfl

theorem onScreen_mem (hl : l.minPx ≤ l.maxPx) (k : EReal) : l.onScreen k ∈ Set.Icc l.minPx l.maxPx :=
  held_mem hl _

/-- Names do not shrink on the screen as the view comes nearer. -/
theorem onScreen_mono (hsize : 0 ≤ l.size) (hln : MonotoneOn NaturalLog.ln (Set.Ioi 0)) (hk : 0 < k)
    (hkk : k ≤ k') : l.onScreen k ≤ l.onScreen k' := by
  have hpos {j : ℝ} (hj : 0 < j) : (1 + j : EReal) ∈ Set.Ioi 0 :=
    zero_lt_one.trans_le (le_add_of_nonneg_right (EReal.coe_nonneg.mpr hj.le))
  have hsum : (1 + k : EReal) ≤ 1 + k' := add_le_add_right (EReal.coe_le_coe_iff.mpr hkk) 1
  have hlog : NaturalLog.ln (1 + k) ≤ NaturalLog.ln (1 + k') := hln (hpos hk) (hpos (hk.trans_le hkk)) hsum
  have hln2 : (0 : EReal) ≤ (Scalar.ln2 : ℝ) := EReal.coe_nonneg.mpr (Real.log_nonneg one_le_two)
  have hnominal : l.size * NaturalLog.ln (1 + k) / (Scalar.ln2 : ℝ) ≤
      l.size * NaturalLog.ln (1 + k') / (Scalar.ln2 : ℝ) :=
    EReal.div_le_div_right_of_nonneg hln2 (mul_le_mul_of_nonneg_left hlog hsize)
  exact held_mono hnominal

end LabelSizing

/-! ### Fading -/

namespace Visibility

variable [NaturalLog]

theorem apply_mem (v : Visibility EReal) (k : EReal) : v.apply k ∈ Set.Icc 0 1 := by
  cases v with
  | constant =>
    rw [apply, Scalar.one_extended]
    exact ⟨zero_le_one, le_rfl⟩
  | fade zero full =>
    rw [apply, Scalar.one_extended, Scalar.zero_extended]
    split_ifs with heq
    · exact ⟨zero_le_one, le_rfl⟩
    · rw [Scalar.clamp_extended zero_le_one]
      exact held_mem zero_le_one _

theorem apply_fade {zero full : ℝ} (h : zero ≠ full) (k : ℝ) :
    (fade (zero : EReal) full).apply k = max 0 (min 1 (((k - zero) / (full - zero) : ℝ) : EReal)) := by
  have hne : ¬ ((zero : EReal) == full) := by simpa using h
  rw [apply, if_neg hne, Scalar.one_extended, Scalar.zero_extended, Scalar.clamp_extended zero_le_one,
    EReal.coe_div, EReal.coe_sub, EReal.coe_sub]

/-- To fade between two zooms: not at all at one and fully at the other, and ever more on the way from the
one to the other, towards larger or smaller zooms as it may be. -/
structure Fades (zero full : ℝ) (alpha : ℝ → EReal) : Prop where
  at_zero : alpha zero = 0
  at_full : alpha full = 1
  rises : zero < full → Monotone alpha
  falls : full < zero → Antitone alpha

theorem fades {zero full : ℝ} (h : zero ≠ full) :
    Fades zero full fun k => (fade (zero : EReal) full).apply k where
  at_zero := by simp [apply_fade h]
  at_full := by
    have hshare : (full - zero) / (full - zero) = 1 := div_self (sub_ne_zero.mpr h.symm)
    simp [apply_fade h, hshare]
  rises hlt k k' hkk := by
    have hshare : (k - zero) / (full - zero) ≤ (k' - zero) / (full - zero) :=
      div_le_div_of_nonneg_right (sub_le_sub_right hkk zero) (sub_pos.mpr hlt).le
    simp only [apply_fade h]
    exact held_mono (EReal.coe_le_coe_iff.mpr hshare)
  falls hlt k k' hkk := by
    have hshare : (k' - zero) / (full - zero) ≤ (k - zero) / (full - zero) :=
      div_le_div_of_nonpos_of_le (sub_neg.mpr hlt).le (sub_le_sub_right hkk zero)
    simp only [apply_fade h]
    exact held_mono (EReal.coe_le_coe_iff.mpr hshare)

end Visibility

/-! ### All sizes -/

namespace Sizing

/-- The bounds of all sizes are in order. -/
structure Ordered (s : Sizing EReal) : Prop where
  label : s.label.minPx ≤ s.label.maxPx
  radius : s.node.radiusExtent.Ordered
  hitRadius : s.node.hitExtent.Ordered

variable [NaturalLog] {s : Sizing EReal}

/-- The sizes `z` are for zoom `k` and come to what is declared on the screen. -/
structure OnScreen (s : Sizing EReal) (k : ℝ) (z : Sizes EReal) : Prop where
  zoom : z.k = k
  nodeRadius : z.nodeRadius * k = s.node.radiusExtent.onScreen s.node.radius k
  hitRadius : z.hitRadius * k = s.node.hitExtent.onScreen s.node.hitRadius k
  ringFactor : z.ringFactor = s.node.ringFactor
  ringWidth : z.ringWidth * k = s.node.ringWidth
  labelSize : z.labelSize * k = s.label.onScreen k
  labelSize_mem : z.labelSize * k ∈ Set.Icc s.label.minPx s.label.maxPx
  labelFont : z.labelFont.size * k = s.label.onScreen k
  addressFont : z.addressFont.size * k = s.label.onScreen k * s.label.addressRatio
  addressAlpha : z.addressAlpha = s.label.addressAlpha.apply k
  addressAlpha_mem : z.addressAlpha ∈ Set.Icc 0 1
  spokeWidth : z.spokeWidth * k = s.edge.spokeWidth
  peerWidth : z.peerWidth * k = s.edge.peerWidth
  highlightExtraWidth : z.highlightExtraWidth * k = s.edge.highlightExtraWidth
  particleRadius : z.particleRadius * k = s.edge.particleRadius
  edgeHitTolerance : z.edgeHitTolerance * k = s.edge.hitTolerance

theorem Ordered.exists_onScreen (hs : s.Ordered) (hk : 0 < k) :
    ∃ z, s.sizesAt? k = some z ∧ s.OnScreen k z := by
  obtain ⟨radius, hradius, hradiusPx⟩ := Extent.exists_apply?_onScreen hs.radius s.node.radius hk
  obtain ⟨hit, hhit, hhitPx⟩ := Extent.exists_apply?_onScreen hs.hitRadius s.node.hitRadius hk
  have hlabel := LabelSizing.screenPx?_eq hs.label (k : EReal)
  have hlabelPx : s.label.onScreen k / k * k = s.label.onScreen k := div_zoom_mul hk _
  have hmem : s.label.onScreen k / k * k ∈ Set.Icc s.label.minPx s.label.maxPx := by
    rw [hlabelPx]
    exact LabelSizing.onScreen_mem hs.label k
  have haddressPx : s.label.onScreen k / k * s.label.addressRatio * k =
      s.label.onScreen k * s.label.addressRatio := by
    rw [mul_right_comm, hlabelPx]
  refine ⟨_, by rw [sizesAt?, hlabel, hradius, hhit]; rfl, ?_⟩
  exact {
    zoom := rfl
    nodeRadius := hradiusPx
    hitRadius := hhitPx
    ringFactor := rfl
    ringWidth := div_zoom_mul hk _
    labelSize := hlabelPx
    labelSize_mem := hmem
    labelFont := hlabelPx
    addressFont := haddressPx
    addressAlpha := rfl
    addressAlpha_mem := Visibility.apply_mem _ _
    spokeWidth := div_zoom_mul hk _
    peerWidth := div_zoom_mul hk _
    highlightExtraWidth := div_zoom_mul hk _
    particleRadius := div_zoom_mul hk _
    edgeHitTolerance := div_zoom_mul hk _ }

theorem Ordered.onScreen (hs : s.Ordered) (hk : 0 < k) {z : Sizes EReal}
    (h : s.sizesAt? k = some z) : s.OnScreen k z := by
  obtain ⟨z', h', hz'⟩ := hs.exists_onScreen hk
  exact Option.some.inj (h'.symm.trans h) ▸ hz'

/-- Sizes with ordered bounds can be had at every zoom, and come to what is declared. Names do not shrink
on the screen as the view comes nearer, if the logarithm does not fall, and addresses fade between their
two zooms, whichever of these is nearer. -/
theorem sizes_on_screen (hs : s.Ordered) :
    (∀ {k : ℝ}, 0 < k → ∃ z, s.sizesAt? k = some z ∧ s.OnScreen k z) ∧
      (0 ≤ s.label.size → MonotoneOn NaturalLog.ln (Set.Ioi 0) → ∀ {k k' : ℝ} {z z' : Sizes EReal},
        0 < k → k ≤ k' → s.sizesAt? k = some z → s.sizesAt? k' = some z' →
          z.labelSize * k ≤ z'.labelSize * k') ∧
      ∀ {zero full : ℝ}, s.label.addressAlpha = .fade zero full → zero ≠ full →
        Visibility.Fades zero full fun k => s.label.addressAlpha.apply k := by
  refine ⟨hs.exists_onScreen, ?_, ?_⟩
  · intro hsize hln k k' z z' hk hkk hz hz'
    rw [(hs.onScreen hk hz).labelSize, (hs.onScreen (hk.trans_le hkk) hz').labelSize]
    exact LabelSizing.onScreen_mono hsize hln hk hkk
  · intro zero full hfade hne
    rw [hfade]
    exact Visibility.fades hne

theorem standard_ordered : (standard : Sizing EReal).Ordered where
  label := by
    change ((4 : ℕ) : EReal) ≤ (22 : ℕ)
    exact_mod_cast (by decide : 4 ≤ 22)
  radius := le_top
  hitRadius := le_top

theorem standard_radius_onScreen (k : ℝ) :
    (standard : Sizing EReal).node.radiusExtent.onScreen (standard : Sizing EReal).node.radius k =
      ((max 2 (2 * k) : ℝ) : EReal) := by
  change max ((2 : ℕ) : EReal) (min ⊤ ((2 : ℕ) * k)) = _
  rw [min_eq_right le_top]
  norm_cast

theorem standard_addressAlpha :
    (standard : Sizing EReal).label.addressAlpha = .fade (4 / 5 : ℝ) (3 / 2 : ℝ) := by
  have hzero : (Scalar.ofDecimal 8 true 1 : ℝ) = 4 / 5 := by norm_num [Scalar.ofDecimal_real]
  have hfull : (Scalar.ofDecimal 15 true 1 : ℝ) = 3 / 2 := by norm_num [Scalar.ofDecimal_real]
  rw [← hzero, ← hfull]
  rfl

omit [NaturalLog] in
/-- A radius of two that is at least two pixels is six pixels from near, and two, not one, from afar. -/
theorem sizes_on_screen_standard :
    letI := NaturalLog.standard
    ∃ near far : Sizes EReal, (standard : Sizing EReal).sizesAt? (3 : ℝ) = some near ∧
      (standard : Sizing EReal).sizesAt? (1 / 2 : ℝ) = some far ∧
      near.nodeRadius * (3 : ℝ) = (6 : ℝ) ∧ far.nodeRadius * (1 / 2 : ℝ) = (2 : ℝ) ∧
      far.labelSize * (1 / 2 : ℝ) ≤ near.labelSize * (3 : ℝ) ∧
      (standard : Sizing EReal).label.addressAlpha.apply (4 / 5 : ℝ) = 0 := by
  let _ := NaturalLog.standard
  obtain ⟨hsizes, hlabel, hfade⟩ := sizes_on_screen standard_ordered
  obtain ⟨near, hnear, hnearPx⟩ := hsizes (by norm_num : (0 : ℝ) < 3)
  obtain ⟨far, hfar, hfarPx⟩ := hsizes (by norm_num : (0 : ℝ) < 1 / 2)
  refine ⟨near, far, hnear, hfar, ?_, ?_, ?_, ?_⟩
  · rw [hnearPx.nodeRadius, standard_radius_onScreen]
    norm_num
  · rw [hfarPx.nodeRadius, standard_radius_onScreen]
    norm_num
  · have hsize : (0 : EReal) ≤ (12 : ℕ) := Nat.cast_nonneg' 12
    exact hlabel hsize (NaturalLog.standard_monotone.monotoneOn _) (by norm_num) (by norm_num) hfar hnear
  · exact (hfade standard_addressAlpha (by norm_num)).at_zero

end Sizing

end TunnelMap
