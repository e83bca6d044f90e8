import TunnelMap.Proofs.Scalar.Binary

/-! The order of the numbers of binary floating point with 64 bits. Numbers are ordered as their places,
which are whole numbers: how often the least positive number goes into them, or more often than into any
finite one for what is infinite. Only zeros are equal without being the same. -/

namespace TunnelMap.Binary

open Float.Model UnpackedFloat

/-! ### Numbers -/

/-- What is a number, infinities included. -/
def IsNumber (x : Float) : Prop := x.toModel.unpack ≠ .notANumber

/-- A finite number above nothing. -/
def Proper (x : Float) : Prop := ∃ m e hm, x.toModel.unpack = .finite .positive m e hm

theorem Proper.isNumber {x : Float} (h : Proper x) : IsNumber x := by
  obtain ⟨m, e, hm, hx⟩ := h
  rw [IsNumber, hx]
  exact nofun

theorem isNumber_of_le {x y : Float} (h : x ≤ y) : IsNumber x ∧ IsNumber y := by
  obtain ⟨o, ho, -⟩ := le_iff.mp h
  exact number_of_compare ho

theorem isNumber_of_lt {x y : Float} (h : x < y) : IsNumber x ∧ IsNumber y :=
  number_of_compare (lt_iff.mp h)

/-- There is but one value that is not a number. -/
theorem eq_nan {x : Float} (h : ¬ IsNumber x) : x = Float.nan := by
  by_contra hne
  have hself : (x.toModel.unpack.compare x.toModel.unpack == some .eq) = true :=
    Float.beq_self_iff.mpr hne
  exact h (number_of_compare (beq_iff_eq.mp hself)).1

/-- What is between two finite numbers above nothing is one itself. -/
theorem Proper.of_between {lo x hi : Float} (hlo : Proper lo) (hhi : Proper hi) (h : lo ≤ x)
    (h' : x ≤ hi) : Proper x := by
  obtain ⟨_, _, _, hlo⟩ := hlo
  obtain ⟨_, _, _, hhi⟩ := hhi
  obtain ⟨o, ho, hle⟩ := le_iff.mp h
  obtain ⟨o', ho', hle'⟩ := le_iff.mp h'
  rw [hlo] at ho
  rw [hhi] at ho'
  rcases hx : x.toModel.unpack with (_ | _) | _ | s | ⟨_ | _, m, e, hm⟩
  all_goals rw [hx] at ho ho'
  · obtain rfl := Option.some.inj ho
    cases hle
  · obtain rfl := Option.some.inj ho'
    cases hle'
  · cases ho
  · obtain rfl := Option.some.inj ho
    cases hle
  · obtain rfl := Option.some.inj ho
    cases hle
  · exact ⟨m, e, hm, hx⟩

/-! ### Places in the order -/

/-- Larger than all finite numbers: the least mantissa of 53 bits with the exponent after the last. -/
def top : Nat := 2 ^ 52 * 2 ^ ((972 : Int) + 1074).toNat

def signed : Sign → Nat → Int
  | .positive, n => n
  | .negative, n => -n

/-- Where a number stands in the order, in units of the least positive number. -/
def key : UnpackedFloat → Int
  | .notANumber => 0
  | .infinity s => signed s top
  | .zero _ => 0
  | .finite s m e _ => signed s (m * 2 ^ (e + 1074).toNat)

theorem key_infinity (s : Sign) : key (.infinity s) = signed s top := rfl

theorem key_finite (s : Sign) {m : Nat} (e : Int) (hm : 0 < m) :
    key (.finite s m e hm) = signed s (m * 2 ^ (e + 1074).toNat) := rfl

/-- The forms of numbers. -/
inductive Held : UnpackedFloat → Prop
  | infinity (s : Sign) : Held (.infinity s)
  | zero (s : Sign) : Held (.zero s)
  | finite {s : Sign} {m : Nat} {e : Int} (hm : 0 < m) (hc : Canonical m e) (he : e < 972) :
      Held (.finite s m e hm)

theorem IsNumber.held {x : Float} (hx : IsNumber x) : Held x.toModel.unpack := by
  cases hu : x.toModel.unpack with
  | notANumber => exact (hx hu).elim
  | infinity s => exact .infinity s
  | zero s => exact .zero s
  | finite s m e hm => exact .finite hm (canonical_of_unpack hu).1 (canonical_of_unpack hu).2

theorem full_le_normal {x y : Nat} (h : x < y) : 2 ^ 53 * 2 ^ x ≤ 2 ^ 52 * 2 ^ y := by
  rw [← pow_add, ← pow_add]
  exact Nat.pow_le_pow_right two_pos (by omega)

section

variable {m m' : Nat} {e e' : Int}

theorem Canonical.value_lt (hc : Canonical m e) (hc' : Canonical m' e') (h : e < e') :
    m * 2 ^ (e + 1074).toNat < m' * 2 ^ (e' + 1074).toNat := by
  have he := hc.le_exponent
  have hnormal : 2 ^ 52 ≤ m' := hc'.normal.resolve_right (by omega)
  calc m * 2 ^ (e + 1074).toNat < 2 ^ 53 * 2 ^ (e + 1074).toNat :=
        Nat.mul_lt_mul_of_pos_right hc.mantissa_lt (Nat.two_pow_pos _)
    _ ≤ 2 ^ 52 * 2 ^ (e' + 1074).toNat := full_le_normal (by omega)
    _ ≤ m' * 2 ^ (e' + 1074).toNat := Nat.mul_le_mul_right _ hnormal

/-- Numbers of the form are ordered as their values. -/
theorem Canonical.upTo_iff (hc : Canonical m e) (hc' : Canonical m' e') :
    UpTo m e m' e' ↔ m * 2 ^ (e + 1074).toNat ≤ m' * 2 ^ (e' + 1074).toNat := by
  unfold UpTo
  rcases lt_trichotomy e e' with hlt | rfl | hgt
  · simp only [hlt, true_or, true_iff]
    exact (hc.value_lt hc' hlt).le
  · simp
  · have hvalue := hc'.value_lt hc hgt
    omega

theorem canonical_top : Canonical (2 ^ 52) 972 := ⟨by norm_num, by norm_num, .inl le_rfl⟩

theorem Canonical.value_lt_top (hc : Canonical m e) (he : e < 972) :
    m * 2 ^ (e + 1074).toNat < top :=
  hc.value_lt canonical_top he

theorem Canonical.top_le_value (hc : Canonical m e) (he : 972 ≤ e) :
    top ≤ m * 2 ^ (e + 1074).toNat :=
  (canonical_top.upTo_iff hc).mp
    (he.lt_or_eq.imp_right fun h => ⟨h, hc.normal.resolve_right (by omega)⟩)

theorem top_pos : 0 < top := Nat.mul_pos (Nat.two_pow_pos _) (Nat.two_pow_pos _)

theorem lex_eq (hc : Canonical m e) (hc' : Canonical m' e') :
    (compare e e').then (compare m m') =
      compare ((m * 2 ^ (e + 1074).toNat : Nat) : Int) (m' * 2 ^ (e' + 1074).toNat : Nat) := by
  rcases lt_trichotomy e e' with hlt | rfl | hgt
  · rw [compare_lt_iff_lt.mpr hlt,
      compare_lt_iff_lt.mpr (Int.ofNat_lt.mpr (hc.value_lt hc' hlt))]
    rfl
  · rw [compare_eq_iff_eq.mpr rfl]
    rcases lt_trichotomy m m' with hlt | rfl | hgt
    · rw [compare_lt_iff_lt.mpr hlt, compare_lt_iff_lt.mpr
        (Int.ofNat_lt.mpr (Nat.mul_lt_mul_of_pos_right hlt (Nat.two_pow_pos _)))]
      rfl
    · simp
    · rw [compare_gt_iff_gt.mpr hgt, compare_gt_iff_gt.mpr
        (Int.ofNat_lt.mpr (Nat.mul_lt_mul_of_pos_right hgt (Nat.two_pow_pos _)))]
      rfl
  · rw [compare_gt_iff_gt.mpr hgt,
      compare_gt_iff_gt.mpr (Int.ofNat_lt.mpr (hc'.value_lt hc hgt))]
    rfl

end

/-- The place of a finite number is beside that of nothing, and within those of the infinities. -/
theorem exists_key_finite (s : Sign) {m : Nat} {e : Int} (hm : 0 < m) (hc : Canonical m e) (he : e < 972) :
    ∃ v, key (.finite s m e hm) = signed s v ∧ 0 < v ∧ v < top :=
  ⟨_, rfl, Nat.mul_pos hm (Nat.two_pow_pos _), hc.value_lt_top he⟩

/-- Two numbers compare as their places do. -/
def Aligned (f g : UnpackedFloat) : Prop := f.compare g = some (compare (key f) (key g))

namespace Aligned

variable {f g : UnpackedFloat}

theorem symm (h : Aligned f g) : Aligned g f := by
  rw [Aligned, compare_swap, h, Option.map_some, ← Std.OrientedOrd.eq_swap]

theorem of_lt (h : f.compare g = some .lt) (hk : key f < key g) : Aligned f g :=
  h.trans (congrArg some (compare_lt_iff_lt.mpr hk).symm)

theorem of_gt (h : f.compare g = some .gt) (hk : key g < key f) : Aligned f g :=
  h.trans (congrArg some (compare_gt_iff_gt.mpr hk).symm)

theorem infinity (s : Sign) (hg : Held g) : Aligned (.infinity s) g := by
  have htop := top_pos
  cases hg with
  | infinity s' =>
    cases s <;> cases s'
    · exact congrArg some (compare_eq_iff_eq.mpr (Eq.refl (key (.infinity .negative)))).symm
    · exact of_lt rfl (by simp only [key, signed]; omega)
    · exact of_gt rfl (by simp only [key, signed]; omega)
    · exact congrArg some (compare_eq_iff_eq.mpr (Eq.refl (key (.infinity .positive)))).symm
  | zero s' =>
    cases s
    · exact of_lt rfl (by simp only [key, signed]; omega)
    · exact of_gt rfl (by simp only [key, signed]; omega)
  | @finite s' m e hm hc he =>
    obtain ⟨v, hv, hpos, hlt⟩ := exists_key_finite s' hm hc he
    cases s
    · exact of_lt (by cases s' <;> rfl) (by rw [hv]; cases s' <;> simp only [key, signed] <;> omega)
    · exact of_gt (by cases s' <;> rfl) (by rw [hv]; cases s' <;> simp only [key, signed] <;> omega)

theorem zero_finite (s s' : Sign) {m : Nat} {e : Int} (hm : 0 < m) (hc : Canonical m e) (he : e < 972) :
    Aligned (.zero s) (.finite s' m e hm) := by
  obtain ⟨v, hv, hpos, -⟩ := exists_key_finite s' hm hc he
  cases s'
  · exact of_gt rfl (by rw [hv]; simp only [key, signed]; omega)
  · exact of_lt rfl (by rw [hv]; simp only [key, signed]; omega)

theorem finite (s s' : Sign) {m m' : Nat} {e e' : Int} (hm : 0 < m) (hm' : 0 < m')
    (hc : Canonical m e) (hc' : Canonical m' e') (he : e < 972) (he' : e' < 972) :
    Aligned (.finite s m e hm) (.finite s' m' e' hm') := by
  obtain ⟨v, hv, hpos, -⟩ := exists_key_finite s hm hc he
  obtain ⟨v', hv', hpos', -⟩ := exists_key_finite s' hm' hc' he'
  cases s <;> cases s'
  · have hneg (a b : Int) : compare (-a) (-b) = compare b a := by
      simp only [compare, compareOfLessAndEq, neg_lt_neg_iff, neg_inj, eq_comm]
    refine congrArg some ?_
    rw [lex_swap, lex_eq hc' hc]
    exact (hneg _ _).symm
  · exact of_lt rfl (by rw [hv, hv']; simp only [signed]; omega)
  · exact of_gt rfl (by rw [hv, hv']; simp only [signed]; omega)
  · exact congrArg some (lex_eq hc hc')

end Aligned

theorem aligned {f g : UnpackedFloat} (hf : Held f) (hg : Held g) : Aligned f g := by
  cases hf with
  | infinity s => exact .infinity s hg
  | zero s =>
    cases hg with
    | infinity s' => exact (Aligned.infinity s' (.zero s)).symm
    | zero s' => rfl
    | finite hm hc he => exact .zero_finite s _ hm hc he
  | finite hm hc he =>
    cases hg with
    | infinity s' => exact (Aligned.infinity s' (.finite hm hc he)).symm
    | zero s' => exact (Aligned.zero_finite s' _ hm hc he).symm
    | finite hm' hc' he' => exact .finite _ _ hm hm' hc hc' he he'

theorem le_iff_key {x y : Float} (hx : IsNumber x) (hy : IsNumber y) :
    x ≤ y ↔ key x.toModel.unpack ≤ key y.toModel.unpack := by
  have hcompare : Aligned x.toModel.unpack y.toModel.unpack :=
    aligned hx.held hy.held
  rw [le_iff, hcompare, ← Int.isLE_compare]
  simp

theorem lt_iff_key {x y : Float} (hx : IsNumber x) (hy : IsNumber y) :
    x < y ↔ key x.toModel.unpack < key y.toModel.unpack := by
  have hcompare : Aligned x.toModel.unpack y.toModel.unpack :=
    aligned hx.held hy.held
  rw [lt_iff, hcompare, Option.some_inj, compare_lt_iff_lt]

protected theorem lt_of_lt_of_le {x y z : Float} (h : x < y) (h' : y ≤ z) : x < z := by
  obtain ⟨hx, hy⟩ := isNumber_of_lt h
  obtain ⟨-, hz⟩ := isNumber_of_le h'
  exact (lt_iff_key hx hz).mpr
    (((lt_iff_key hx hy).mp h).trans_le ((le_iff_key hy hz).mp h'))

protected theorem lt_of_le_of_lt {x y z : Float} (h : x ≤ y) (h' : y < z) : x < z := by
  obtain ⟨hx, hy⟩ := isNumber_of_le h
  obtain ⟨-, hz⟩ := isNumber_of_lt h'
  exact (lt_iff_key hx hz).mpr
    (((le_iff_key hx hy).mp h).trans_lt ((lt_iff_key hy hz).mp h'))

protected theorem le_of_lt {x y : Float} (h : x < y) : x ≤ y :=
  le_of_not_lt (le_self_of_lt h).2 (le_self_of_lt h).1 (lt_asymm h)

/-! ### Products -/

/-- A finite number is packed as a number, whatever its form. -/
theorem unpack_pack_ne_notANumber (s : Sign) {m : Nat} (e : Int) (hm : 0 < m) :
    (pack (.finite s m e hm)).unpack ≠ .notANumber := by
  change unpack Format.binary64 (UnpackedFloat.pack Format.binary64 _) ≠ _
  unfold UnpackedFloat.pack
  dsimp only
  split_ifs with hlarge
  · exact (unpack_infinity s).trans_ne nofun
  · have hones := exponent_ne_ones (Nat.lt_of_not_le hlarge)
    unfold UnpackedFloat.unpack
    simp only [unpackExponent_packComponents, if_neg hones]
    split_ifs <;> exact nofun
  · have hones : 0#11 ≠ -1#11 := by decide
    unfold UnpackedFloat.unpack
    simp only [unpackExponent_packComponents, if_neg hones]
    split_ifs <;> exact nofun

theorem unpack_mul (x y : Float) : (x * y).toModel.unpack =
    (pack (UnpackedFloat.mul Format.binary64 x.toModel.unpack y.toModel.unpack)).unpack := rfl

/-- A number times a finite one above nothing is a number. -/
theorem IsNumber.mul {x c : Float} (hx : IsNumber x) (hc : Proper c) : IsNumber (x * c) := by
  obtain ⟨m, e, hm, hc⟩ := hc
  rw [IsNumber, unpack_mul, hc]
  unfold IsNumber at hx
  generalize x.toModel.unpack = f at hx ⊢
  cases f with
  | notANumber => exact (hx rfl).elim
  | infinity s => exact (unpack_infinity _).trans_ne nofun
  | zero s => exact (unpack_zero _).trans_ne nofun
  | finite s m' e' hm' =>
    change (pack (roundWithAccuracy ..)).unpack ≠ _
    unfold roundWithAccuracy
    dsimp only
    split_ifs
    · exact (unpack_zero _).trans_ne nofun
    · exact unpack_pack_ne_notANumber _ _ _

theorem not_isNumber_mul {x : Float} (hx : ¬ IsNumber x) (c : Float) : ¬ IsNumber (x * c) := by
  rw [IsNumber, not_not] at hx ⊢
  rw [unpack_mul, hx]
  exact unpack_packedNaN

/-! ### Equal places -/

/-- Only zeros are equal without being the same. -/
theorem eq_of_beq {x y : Float} (h : x == y) (hp : Proper x ∨ Proper y) : x = y := by
  obtain ⟨-, -, rfl | ⟨rfl, rfl⟩ | ⟨rfl, rfl⟩⟩ := Float.beq_iff_ne_nan_and_eq.mp h
  · rfl
  · rcases hp with ⟨_, _, _, hp⟩ | ⟨_, _, _, hp⟩ <;> cases hp
  · rcases hp with ⟨_, _, _, hp⟩ | ⟨_, _, _, hp⟩ <;> cases hp

protected theorem lt_of_le_of_ne {x y : Float} (h : x ≤ y) (hp : Proper x ∨ Proper y) (hne : x ≠ y) : x < y := by
  obtain ⟨hx, hy⟩ := isNumber_of_le h
  obtain hlt | heq := ((le_iff_key hx hy).mp h).lt_or_eq
  · exact (lt_iff_key hx hy).mpr hlt
  · have hcompare : x.toModel.unpack.compare y.toModel.unpack = some .eq := by
      rw [aligned hx.held hy.held, heq, compare_eq_iff_eq.mpr rfl]
    have hbeq : (x.toModel.unpack.compare y.toModel.unpack == some .eq) = true :=
      beq_iff_eq.mpr hcompare
    exact absurd (eq_of_beq (x := x) (y := y) hbeq hp) hne

/-! ### Bounds -/

theorem clamp_between {lo hi x : Float} (h : lo ≤ hi) (hx : IsNumber x) :
    lo ≤ Scalar.clamp lo hi x ∧ Scalar.clamp lo hi x ≤ hi := by
  obtain ⟨hlo, hhi⟩ := (isNumber_of_le h).imp le_self le_self
  unfold Scalar.clamp
  split_ifs with hbelow habove
  · exact ⟨hlo, h⟩
  · exact ⟨h, hhi⟩
  · exact ⟨le_of_not_lt (le_self hx) hlo hbelow, le_of_not_lt hhi (le_self hx) habove⟩

theorem clamp_of_not_isNumber {x : Float} (hx : ¬ IsNumber x) (lo hi : Float) :
    Scalar.clamp lo hi x = x := by
  unfold Scalar.clamp
  split_ifs with hbelow habove
  · exact (hx (isNumber_of_lt hbelow).1).elim
  · exact (hx (isNumber_of_lt habove).2).elim
  · rfl

/-- What falls below a number within the bounds is held below it, unless the number is the lower
bound. -/
theorem clamp_falls {lo hi k x : Float} (hk : Proper k) (hlo : lo ≤ k) (hhi : k ≤ hi) (h : x < k) :
    Scalar.clamp lo hi x ≤ k ∧ (Scalar.clamp lo hi x < k ↔ k ≠ lo) := by
  unfold Scalar.clamp
  split_ifs with hbelow habove
  · refine ⟨hlo, fun hlt heq => ?_, fun hne => Binary.lt_of_le_of_ne hlo (.inr hk) hne.symm⟩
    exact lt_asymm hlt (heq ▸ hlt)
  · exact (lt_asymm habove (Binary.lt_of_lt_of_le h hhi)).elim
  · exact ⟨Binary.le_of_lt h, fun _ heq => hbelow (heq ▸ h), fun _ => h⟩

/-- What rises above a number within the bounds is held above it, unless the number is the upper
bound. -/
theorem clamp_rises {lo hi k x : Float} (hk : Proper k) (hlo : lo ≤ k) (hhi : k ≤ hi) (h : k < x) :
    k ≤ Scalar.clamp lo hi x ∧ (k < Scalar.clamp lo hi x ↔ k ≠ hi) := by
  unfold Scalar.clamp
  split_ifs with hbelow habove
  · exact (lt_asymm hbelow (Binary.lt_of_le_of_lt hlo h)).elim
  · refine ⟨hhi, fun hlt heq => ?_, fun hne => Binary.lt_of_le_of_ne hhi (.inl hk) hne⟩
    exact lt_asymm hlt (heq ▸ hlt)
  · exact ⟨Binary.le_of_lt h, fun _ heq => habove (heq ▸ h), fun _ => h⟩

end TunnelMap.Binary
