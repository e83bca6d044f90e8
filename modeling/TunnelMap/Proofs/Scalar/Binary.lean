import Mathlib
import TunnelMap.Scalar.Binary

/-! Laws of binary floating point with 64 bits. Two numbers are compared unless one of them is not a number,
and then the order is total and asymmetric. A sum of two that are not below nothing is not below the
first: a finite number has a mantissa of at most 53 bits and the least exponent that these allow, such
numbers are ordered by exponent and then by mantissa, and rounding a larger mantissa to this form does
not come below any number of the form that was not larger. A sum that is too large is packed as
infinity, below which nothing positive lies. -/

namespace TunnelMap.Binary

open Float.Model UnpackedFloat

/-! ### Order -/

theorem lt_iff {x y : Float} :
    x < y ↔ x.toModel.unpack.compare y.toModel.unpack = some .lt := by
  change (decide (x.toModel < y.toModel)) = true ↔ _
  rw [decide_eq_true_iff]
  change (UnpackedFloat.compare _ _ == some .lt) = true ↔ _
  rw [beq_iff_eq]

theorem le_iff {x y : Float} :
    x ≤ y ↔ ∃ o, x.toModel.unpack.compare y.toModel.unpack = some o ∧ o.isLE := by
  change (decide (x.toModel ≤ y.toModel)) = true ↔ _
  rw [decide_eq_true_iff]
  change (UnpackedFloat.compare _ _).any _ = true ↔ _
  rw [Option.any_eq_true]

/-- Finite numbers are compared by their exponents first. -/
theorem lex_swap (e e' : Int) (m m' : Nat) :
    ((compare e e').then (compare m m')).swap = (compare e' e).then (compare m' m) := by
  rw [Ordering.swap_then, ← Std.OrientedOrd.eq_swap, ← Std.OrientedOrd.eq_swap]

theorem compare_swap (f g : UnpackedFloat) : g.compare f = (f.compare g).map Ordering.swap := by
  rcases f with (_ | _) | _ | _ | ⟨_ | _, m, e, hm⟩ <;>
    rcases g with (_ | _) | _ | _ | ⟨_ | _, m', e', hm'⟩ <;>
    first | rfl | simp [UnpackedFloat.compare, lex_swap]

theorem compare_self {f : UnpackedFloat} (hf : f ≠ .notANumber) : f.compare f = some .eq := by
  rcases f with (_ | _) | _ | _ | ⟨_ | _, m, e, hm⟩ <;>
    first | rfl | exact (hf rfl).elim | simp [UnpackedFloat.compare]

theorem number_of_compare {f g : UnpackedFloat} {o : Ordering} (h : f.compare g = some o) :
    f ≠ .notANumber ∧ g ≠ .notANumber := by
  constructor
  · rintro rfl
    simp [UnpackedFloat.compare] at h
  · rintro rfl
    cases f <;> simp [UnpackedFloat.compare] at h

theorem exists_compare {f g : UnpackedFloat} (hf : f ≠ .notANumber) (hg : g ≠ .notANumber) :
    ∃ o, f.compare g = some o := by
  rcases f with (_ | _) | _ | _ | ⟨_ | _, m, e, hm⟩ <;>
    rcases g with (_ | _) | _ | _ | ⟨_ | _, m', e', hm'⟩ <;>
    first | exact ⟨_, rfl⟩ | contradiction

theorem lt_asymm {x y : Float} (h : x < y) : ¬ y < x := by
  rw [lt_iff, compare_swap, lt_iff.mp h]
  simp

theorem le_self {x : Float} (hx : x.toModel.unpack ≠ .notANumber) : x ≤ x :=
  le_iff.mpr ⟨.eq, compare_self hx, rfl⟩

theorem le_self_of_lt {x y : Float} (h : x < y) : x ≤ x ∧ y ≤ y :=
  (number_of_compare (lt_iff.mp h)).imp le_self le_self

theorem le_of_not_lt {x y : Float} (hx : x ≤ x) (hy : y ≤ y) (h : ¬ x < y) : y ≤ x := by
  obtain ⟨_, hx, -⟩ := le_iff.mp hx
  obtain ⟨_, hy, -⟩ := le_iff.mp hy
  obtain ⟨o, ho⟩ := exists_compare (number_of_compare hx).1 (number_of_compare hy).1
  rw [lt_iff, ho] at h
  refine le_iff.mpr ⟨o.swap, by rw [compare_swap, ho]; rfl, ?_⟩
  cases o with
  | lt => exact (h rfl).elim
  | _ => rfl

/-! ### Rounding -/

/-- The mantissas and exponents of the finite numbers, and of those that would be too large. -/
structure Canonical (m : Nat) (e : Int) : Prop where
  mantissa_lt : m < 2 ^ 53
  le_exponent : -1074 ≤ e
  normal : 2 ^ 52 ≤ m ∨ e = -1074

/-- The order of the numbers of this form. -/
def UpTo (m : Nat) (e : Int) (m' : Nat) (e' : Int) : Prop :=
  e < e' ∨ e = e' ∧ m ≤ m'

theorem UpTo.trans {m m' m'' : Nat} {e e' e'' : Int} (h : UpTo m e m' e') (h' : UpTo m' e' m'' e'') :
    UpTo m e m'' e'' := by
  unfold UpTo at *
  omega

theorem UpTo.of_le {m m' m'' : Nat} {e e'' : Int} (h : UpTo m' e m'' e'') (hle : m ≤ m') :
    UpTo m e m'' e'' :=
  .trans (.inr ⟨rfl, hle⟩) h

theorem shiftRight_mantissa (em : ExtendedMantissa) (k : Nat) :
    (em >>> k).mantissa = em.mantissa / 2 ^ k := by
  induction k with
  | zero => exact (Nat.div_one _).symm
  | succ k ih =>
    calc (em >>> (k + 1)).mantissa = (em >>> k).mantissa / 2 := rfl
      _ = em.mantissa / 2 ^ (k + 1) := by rw [ih, Nat.div_div_eq_div_mul, pow_succ]

/-- Rounding goes to the next mantissa at most. -/
theorem le_roundedMantissa (em : ExtendedMantissa) :
    em.mantissa ≤ em.roundedMantissa ∧ em.roundedMantissa ≤ em.mantissa + 1 := by
  obtain ⟨m, _ | _, _ | _⟩ := em
  · exact ⟨le_rfl, Nat.le_succ m⟩
  · exact ⟨le_rfl, Nat.le_succ m⟩
  · have : m % 2 < 2 := Nat.mod_lt m two_pos
    change m ≤ m + m % 2 ∧ m + m % 2 ≤ m + 1
    omega
  · exact ⟨Nat.le_succ m, le_rfl⟩

/-- The exponent that a number gets: the least one with which its mantissa has no more than 53 bits. -/
def targetOf (m : Nat) (e : Int) : Int := max ((m.log2 : Int) + e - 52) (-1074)

theorem le_targetOf (m : Nat) (e : Int) : -1074 ≤ targetOf m e := le_max_right ..

theorem targetExponent_eq (m : Nat) (e : Int) :
    Format.binary64.targetExponent (totalExponent m e) = targetOf m e := by
  have htarget (t : Int) : Format.binary64.targetExponent t = max (t - 53) (-1074) := rfl
  rw [htarget, totalExponent, targetOf]
  omega

theorem shiftToTargetExponent_eq (m : Nat) (e : Int) :
    (shiftToTargetExponent Format.binary64 m e .exact).1.mantissa =
        m / 2 ^ (targetOf m e - e).toNat ∧
      (shiftToTargetExponent Format.binary64 m e .exact).2 = e + (targetOf m e - e).toNat := by
  unfold shiftToTargetExponent shiftToExponent
  rw [targetExponent_eq]
  exact ⟨shiftRight_mantissa _ _, rfl⟩

/-- A mantissa that was rounded up to one bit more takes the next exponent. -/
theorem shiftToTargetExponent_settles {r : Nat} {t : Int} (hr : r ≤ 2 ^ 53) (ht : -1074 ≤ t) :
    (shiftToTargetExponent Format.binary64 r t .exact).1.mantissa =
        (if r = 2 ^ 53 then 2 ^ 52 else r) ∧
      (shiftToTargetExponent Format.binary64 r t .exact).2 = if r = 2 ^ 53 then t + 1 else t := by
  obtain ⟨hm, he⟩ := shiftToTargetExponent_eq r t
  rw [hm, he]
  unfold targetOf
  split_ifs with hfull
  · subst hfull
    have hk : (max (((2 ^ 53 : Nat).log2 : Int) + t - 52) (-1074) - t).toNat = 1 := by
      rw [Nat.log2_two_pow]
      omega
    rw [hk]
    exact ⟨by norm_num, rfl⟩
  · have hlog : r.log2 < 53 := by
      obtain rfl | hpos := r.eq_zero_or_pos
      · decide
      · exact (Nat.log2_lt hpos.ne').mpr (hr.lt_of_ne hfull)
    have hk : (max ((r.log2 : Int) + t - 52) (-1074) - t).toNat = 0 := by omega
    rw [hk, pow_zero, Nat.div_one, Nat.cast_zero, add_zero]
    exact ⟨rfl, rfl⟩

/-- What a rounded mantissa settles to is in form, and is the same number. -/
theorem exists_settled {r : Nat} {t : Int} (hr : r ≤ 2 ^ 53) (ht : -1074 ≤ t)
    (hnormal : 2 ^ 52 ≤ r ∨ t = -1074) :
    ∃ m e, (shiftToTargetExponent Format.binary64 r t .exact).1.mantissa = m ∧
      (shiftToTargetExponent Format.binary64 r t .exact).2 = e ∧ Canonical m e ∧ UpTo r t m e ∧
      m * 2 ^ (e + 1074).toNat = r * 2 ^ (t + 1074).toNat := by
  obtain ⟨hm, he⟩ := shiftToTargetExponent_settles hr ht
  refine ⟨_, _, hm, he, ?_⟩
  split_ifs with hfull
  · have hexp : (t + 1 + 1074).toNat = (t + 1074).toNat + 1 := by omega
    refine ⟨⟨by norm_num, by omega, .inl le_rfl⟩, .inl (by omega), ?_⟩
    rw [hexp, hfull, pow_succ (2 : Nat) 52, mul_assoc, ← pow_succ']
  · exact ⟨⟨hr.lt_of_ne hfull, ht, hnormal⟩, .inr ⟨rfl, le_rfl⟩, rfl⟩

theorem log2_mul_two_pow {m : Nat} (hm : 0 < m) (k : Nat) : (m * 2 ^ k).log2 = m.log2 + k := by
  refine (Nat.log2_eq_iff (Nat.mul_pos hm (Nat.two_pow_pos k)).ne').mpr ⟨?_, ?_⟩
  · rw [pow_add]
    exact Nat.mul_le_mul_right _ (Nat.log2_self_le hm.ne')
  · rw [Nat.add_right_comm, pow_add]
    exact Nat.mul_lt_mul_of_pos_right Nat.lt_log2_self (Nat.two_pow_pos k)

/-- What the mantissa of a number is cut to before it is rounded. -/
def cut (m : Nat) (e : Int) : Nat :=
  m * 2 ^ (e - targetOf m e).toNat / 2 ^ (targetOf m e - e).toNat

section

variable {m : Nat} {e : Int}

theorem cut_lt : cut m e < 2 ^ 53 := by
  have hexp : m.log2 + 1 + (e - targetOf m e).toNat ≤ 53 + (targetOf m e - e).toNat := by
    unfold targetOf
    omega
  refine (Nat.div_lt_iff_lt_mul (Nat.two_pow_pos _)).mpr ?_
  calc m * 2 ^ (e - targetOf m e).toNat < 2 ^ (m.log2 + 1) * 2 ^ (e - targetOf m e).toNat :=
        Nat.mul_lt_mul_of_pos_right Nat.lt_log2_self (Nat.two_pow_pos _)
    _ = 2 ^ (m.log2 + 1 + (e - targetOf m e).toNat) := (pow_add ..).symm
    _ ≤ 2 ^ (53 + (targetOf m e - e).toNat) := Nat.pow_le_pow_right two_pos hexp
    _ = 2 ^ 53 * 2 ^ (targetOf m e - e).toNat := pow_add ..

theorem cut_normal (hm : 0 < m) : 2 ^ 52 ≤ cut m e ∨ targetOf m e = -1074 := by
  refine or_iff_not_imp_right.mpr fun hne => ?_
  have hexp : 52 + (targetOf m e - e).toNat = m.log2 + (e - targetOf m e).toNat := by
    unfold targetOf at hne ⊢
    omega
  refine (Nat.le_div_iff_mul_le (Nat.two_pow_pos _)).mpr ?_
  calc 2 ^ 52 * 2 ^ (targetOf m e - e).toNat = 2 ^ m.log2 * 2 ^ (e - targetOf m e).toNat := by
        rw [← pow_add, ← pow_add, hexp]
    _ ≤ m * 2 ^ (e - targetOf m e).toNat := Nat.mul_le_mul_right _ (Nat.log2_self_le hm.ne')

theorem cut_of_le (h : targetOf m e ≤ e) : cut m e = m * 2 ^ (e - targetOf m e).toNat := by
  have hk : (targetOf m e - e).toNat = 0 := by omega
  rw [cut, hk, pow_zero, Nat.div_one]

theorem cut_pos (hm : 0 < m) (he : -1074 ≤ e) : 0 < cut m e := by
  obtain hn | hmin := cut_normal (e := e) hm
  · exact (Nat.two_pow_pos 52).trans_le hn
  · rw [cut_of_le (hmin.trans_le he)]
    exact Nat.mul_pos hm (Nat.two_pow_pos _)

/-- No number of the form comes after the cut of one that it was not larger than. -/
theorem Canonical.upTo_cut {m' : Nat} {e' : Int} (hc : Canonical m' e') (hee : e ≤ e')
    (hle : m' * 2 ^ (e' - e).toNat ≤ m) : UpTo m' e' (cut m e) (targetOf m e) := by
  have het : e' ≤ targetOf m e := by
    unfold targetOf
    obtain hn | rfl := hc.normal
    · have hpow : 2 ^ (52 + (e' - e).toNat) < 2 ^ (m.log2 + 1) := by
        calc 2 ^ (52 + (e' - e).toNat) = 2 ^ 52 * 2 ^ (e' - e).toNat := pow_add ..
          _ ≤ m' * 2 ^ (e' - e).toNat := Nat.mul_le_mul_right _ hn
          _ ≤ m := hle
          _ < 2 ^ (m.log2 + 1) := Nat.lt_log2_self
      have := (Nat.pow_lt_pow_iff_right one_lt_two).mp hpow
      omega
    · exact le_targetOf m e
  refine het.lt_or_eq.imp_right fun heq => ⟨heq, ?_⟩
  subst heq
  have hk : (e - targetOf m e).toNat = 0 := by omega
  refine (Nat.le_div_iff_mul_le (Nat.two_pow_pos _)).mpr ?_
  rwa [hk, pow_zero, mul_one]

/-- Rounding cuts, goes to the next mantissa at most, and settles. -/
theorem exists_round (hm : 0 < m) (he : -1074 ≤ e) : ∃ m₁ e₁, ∃ hm₁ : 0 < m₁,
    UnpackedFloat.round Format.binary64 .positive m e = .finite .positive m₁ e₁ hm₁ ∧
      Canonical m₁ e₁ ∧ UpTo (cut m e) (targetOf m e) m₁ e₁ := by
  have hdecrease : decreaseExponent m e (Format.binary64.targetExponent (totalExponent m e)) =
      (m * 2 ^ (e - targetOf m e).toNat, e - (e - targetOf m e).toNat) := by
    rw [targetExponent_eq, decreaseExponent, Nat.shiftLeft_eq]
  obtain ⟨hshift, hexp⟩ := shiftToTargetExponent_eq (m * 2 ^ (e - targetOf m e).toNat)
    (e - (e - targetOf m e).toNat)
  have hsame : targetOf (m * 2 ^ (e - targetOf m e).toNat) (e - (e - targetOf m e).toNat) =
      targetOf m e := by
    unfold targetOf
    rw [log2_mul_two_pow hm]
    omega
  have hk : (targetOf m e - (e - (e - targetOf m e).toNat)).toNat = (targetOf m e - e).toNat := by
    omega
  have ht : e - ((e - targetOf m e).toNat : Int) + (targetOf m e - e).toNat = targetOf m e := by
    omega
  rw [hsame, hk] at hshift hexp
  rw [ht] at hexp
  obtain ⟨hle, hsucc⟩ := le_roundedMantissa (shiftToTargetExponent Format.binary64
    (m * 2 ^ (e - targetOf m e).toNat) (e - (e - targetOf m e).toNat) .exact).1
  rw [hshift] at hle hsucc
  obtain ⟨m₁, e₁, hm₁, he₁, hc, hup, hvalue⟩ := exists_settled (hsucc.trans cut_lt)
    (le_targetOf m e) ((cut_normal hm).imp_left (·.trans hle))
  have hpos : 0 < m₁ := Nat.pos_of_mul_pos_right (hvalue.symm ▸
    Nat.mul_pos ((cut_pos hm he).trans_le hle) (Nat.two_pow_pos _))
  refine ⟨m₁, e₁, hpos, ?_, hc, hup.of_le hle⟩
  unfold UnpackedFloat.round
  simp only [hdecrease]
  unfold UnpackedFloat.roundWithAccuracy
  simp only [hexp, hm₁, he₁, hpos.ne', dite_false]

end

/-! ### Packing -/

theorem unpack_zero (s : Sign) : (pack (.zero s)).unpack = .zero s := unpack_packedZero

theorem unpack_infinity (s : Sign) : (pack (.infinity s)).unpack = .infinity s := by cases s <;> rfl

theorem toNat_one_append (v : BitVec 52) : (1#1 ++ v).toNat = 2 ^ 52 + v.toNat := by
  rw [BitVec.toNat_append, ← Nat.shiftLeft_add_eq_or_of_lt v.isLt]
  rfl

theorem toNat_pos_of_ne {n : Nat} {v : BitVec n} (h : v ≠ 0#n) : 0 < v.toNat :=
  (BitVec.toNat_pos v).mpr ((BitVec.pos_iff_ne_zero v).mpr h)

theorem toNat_exponent {b : Nat} (hb : b + 1 < 2 ^ 11) : (BitVec.ofNat 11 b).toNat = b := by
  rw [BitVec.toNat_ofNat, Nat.mod_eq_of_lt (by omega)]

theorem exponent_ne_ones {b : Nat} (hb : b + 1 < 2 ^ 11) : BitVec.ofNat 11 b ≠ -1#11 := fun h => by
  have : b = 2047 := (toNat_exponent hb).symm.trans (congrArg BitVec.toNat h)
  omega

theorem unpack_normal (s : Sign) (v : BitVec 52) {b : Nat} (hpos : 0 < b) (hb : b + 1 < 2 ^ 11) :
    ∃ hm, unpack Format.binary64 (packComponents Format.binary64 s (BitVec.ofNat 11 b) v) =
      .finite s (2 ^ 52 + v.toNat) (b - 1075) hm := by
  have hnat : (BitVec.ofNat 11 b).toNat = b := toNat_exponent hb
  have hones : BitVec.ofNat 11 b ≠ -1#11 := exponent_ne_ones hb
  have hzero : BitVec.ofNat 11 b ≠ 0#11 := fun h => by
    have : b = 0 := hnat.symm.trans (congrArg BitVec.toNat h)
    omega
  refine ⟨Nat.add_pos_left (Nat.two_pow_pos 52) _, ?_⟩
  unfold UnpackedFloat.unpack
  simp only [unpackExponent_packComponents, unpackMantissa_packComponents,
    unpackSign_packComponents, Sign.ofBitVec_toBitVec, hones, hzero, if_false, toNat_one_append, hnat]
  rfl

theorem unpack_subnormal (s : Sign) {v : BitVec 52} (hv : v ≠ 0#52) :
    ∃ hm, unpack Format.binary64 (packComponents Format.binary64 s 0#11 v) =
      .finite s v.toNat (-1074) hm := by
  refine ⟨toNat_pos_of_ne hv, ?_⟩
  unfold UnpackedFloat.unpack
  simp only [unpackExponent_packComponents, unpackMantissa_packComponents,
    unpackSign_packComponents, Sign.ofBitVec_toBitVec, hv, dite_false]
  rfl

/-- A number of the form is kept as it is, or is too large. -/
theorem unpack_finite {m : Nat} {e : Int} (hc : Canonical m e) (s : Sign) (hm : 0 < m) :
    (pack (.finite s m e hm)).unpack = if 972 ≤ e then .infinity s else .finite s m e hm := by
  obtain ⟨hlt, hle, hnormal⟩ := hc
  change unpack Format.binary64 (UnpackedFloat.pack Format.binary64 _) = _
  have hb : (e + Format.binary64.exponentBias + Format.binary64.mantissaBitsWithoutImplicit).toNat =
      (e + 1075).toNat := congrArg Int.toNat (add_assoc e 1023 52)
  have hlarge : 2 ^ Format.binary64.exponentBits ≤ (e + 1075).toNat + 1 ↔ 972 ≤ e := by
    change 2 ^ 11 ≤ _ ↔ _
    omega
  unfold UnpackedFloat.pack
  simp only [hb, hlarge]
  split_ifs with hrange hbits
  · exact unpack_infinity s
  · have hge : 2 ^ 52 ≤ m := (Nat.le_log2 hm.ne').mp (Nat.succ_injective (hbits.trans rfl)).ge
    have hmod : m % 2 ^ 52 = m - 2 ^ 52 := by omega
    obtain ⟨_, h⟩ := unpack_normal s (BitVec.ofNat 52 m) (b := (e + 1075).toNat) (by omega) (by omega)
    refine h.trans ?_
    simp only [BitVec.toNat_ofNat, hmod, finite.injEq, true_and]
    omega
  · have hsmall : m < 2 ^ 52 := by
      refine lt_of_not_ge fun hge => hbits ?_
      have hlog : m.log2 = 52 := (Nat.log2_eq_iff hm.ne').mpr ⟨hge, hlt⟩
      rw [hlog]
      rfl
    have hmod : m % 2 ^ 52 = m := Nat.mod_eq_of_lt hsmall
    have hnat : (BitVec.ofNat 52 m).toNat = m := by rw [BitVec.toNat_ofNat, hmod]
    have hne : BitVec.ofNat 52 m ≠ 0#52 := fun h => hm.ne' (hnat.symm.trans (congrArg BitVec.toNat h))
    obtain ⟨_, h⟩ := unpack_subnormal s hne
    refine h.trans ?_
    simp only [hnat, finite.injEq, true_and]
    omega

theorem canonical_of_unpack {f : Float.Model} {s : Sign} {m : Nat} {e : Int} {hm : 0 < m}
    (h : f.unpack = .finite s m e hm) : Canonical m e ∧ e < 972 := by
  unfold Float.Model.unpack UnpackedFloat.unpack at h
  have hbias : ((Format.binary64.exponentBias : Int) + (52 : Nat)) = 1075 := rfl
  simp only [hbias] at h
  split_ifs at h with hones hinf hzero hmantissa
  · obtain ⟨-, rfl, rfl⟩ := finite.inj h
    rw [hzero]
    exact ⟨⟨(BitVec.isLt _).trans (by norm_num), by decide, .inr rfl⟩, by decide⟩
  · obtain ⟨-, rfl, rfl⟩ := finite.inj h
    have hlt := BitVec.isLt (@unpackMantissa Format.binary64 f.toBits.toBitVec)
    change _ < 2 ^ 52 at hlt
    have hpos := toNat_pos_of_ne hzero
    have hexp := BitVec.isLt (@unpackExponent Format.binary64 f.toBits.toBitVec)
    change _ < 2 ^ 11 at hexp
    have hne : (@unpackExponent Format.binary64 f.toBits.toBitVec).toNat ≠ 2047 :=
      fun h => hones (BitVec.eq_of_toNat_eq (h.trans rfl))
    rw [toNat_one_append]
    exact ⟨⟨by omega, by omega, .inl (Nat.le_add_right ..)⟩, by omega⟩

/-! ### Sums -/

/-- Whatever the second is below, the first is. -/
def Under (f g : UnpackedFloat) : Prop :=
  ∀ h, g.compare h = some .lt → f.compare h = some .lt

theorem under_infinity (f : UnpackedFloat) : Under f (pack (.infinity .positive)).unpack := by
  rw [unpack_infinity]
  rintro ((_ | _) | _ | _ | _) h <;> cases h

theorem under_notANumber (f : UnpackedFloat) : Under f (pack .notANumber).unpack := by
  rintro (_ | _ | _ | _) h <;> cases h

theorem under_zero (s s' : Sign) : Under (.zero s) (.zero s') := by
  rintro ((_ | _) | _ | _ | ⟨_ | _, m, e, hm⟩) h
  all_goals first | rfl | cases h

theorem under_zero_finite (s : Sign) {m : Nat} {e : Int} (hm : 0 < m) :
    Under (.zero s) (.finite .positive m e hm) := by
  rintro ((_ | _) | _ | _ | ⟨_ | _, m', e', hm'⟩) h
  all_goals first | rfl | cases h

theorem under_finite {m m₁ : Nat} {e e₁ : Int} (hm : 0 < m) (hm₁ : 0 < m₁)
    (hle : UpTo m e m₁ e₁) :
    Under (.finite .positive m e hm) (.finite .positive m₁ e₁ hm₁) := by
  rintro ((_ | _) | _ | _ | ⟨_ | _, m', e', hm'⟩) h
  any_goals first | rfl | cases h
  have hlex : (compare e₁ e').then (compare m₁ m') = .lt := Option.some.inj h
  refine congrArg some (?_ : (compare e e').then (compare m m') = .lt)
  rw [Ordering.then_eq_lt, compare_lt_iff_lt, compare_eq_iff_eq, compare_lt_iff_lt] at hlex ⊢
  unfold UpTo at hle
  omega

/-- What is not less than nothing. -/
inductive Nonneg : UnpackedFloat → Prop
  | notANumber : Nonneg .notANumber
  | infinity : Nonneg (.infinity .positive)
  | zero (s : Sign) : Nonneg (.zero s)
  | finite {m : Nat} {e : Int} (hm : 0 < m) (hc : Canonical m e) : Nonneg (.finite .positive m e hm)

theorem nonneg_of_not_lt_zero {x : Float} (h : ¬ x < 0) : Nonneg x.toModel.unpack := by
  rw [lt_iff] at h
  have hzero : (0 : Float).toModel.unpack = .zero .positive := rfl
  rw [hzero] at h
  rcases hx : x.toModel.unpack with (_ | _) | _ | s | ⟨_ | _, m, e, hm⟩
  · rw [hx] at h
    exact (h rfl).elim
  · exact .infinity
  · exact .notANumber
  · exact .zero s
  · rw [hx] at h
    exact (h rfl).elim
  · exact .finite hm (canonical_of_unpack hx).1

/-- A number in range is packed as itself, or is too large: nothing that was under it comes above it. -/
theorem Under.pack {f : UnpackedFloat} {m : Nat} {e : Int} {hm : 0 < m}
    (h : Under f (.finite .positive m e hm)) (hc : Canonical m e) :
    Under f (pack (.finite .positive m e hm)).unpack := by
  rw [unpack_finite hc]
  split_ifs
  · rw [← unpack_infinity]
    exact under_infinity f
  · exact h

theorem normalize_of_pos {n : Nat} (hn : 0 < n) (e : Int) (s : Sign) :
    UnpackedFloat.normalize Format.binary64 n e s =
      UnpackedFloat.round Format.binary64 .positive n e := by
  have hcompare : compare (n : Int) 0 = .gt := compare_gt_iff_gt.mpr (Int.natCast_pos.mpr hn)
  unfold UnpackedFloat.normalize
  rw [hcompare]
  rfl

theorem under_add_finite {m₁ m₂ : Nat} {e₁ e₂ : Int} (hm₁ : 0 < m₁) (h₁ : Canonical m₁ e₁)
    (hm₂ : 0 < m₂) (h₂ : Canonical m₂ e₂) : Under (.finite .positive m₁ e₁ hm₁)
      (pack (add Format.binary64 (.finite .positive m₁ e₁ hm₁)
        (.finite .positive m₂ e₂ hm₂))).unpack := by
  have hpos : 0 < m₁ <<< (e₁ - min e₁ e₂).toNat + m₂ <<< (e₂ - min e₁ e₂).toNat := by
    rw [Nat.shiftLeft_eq]
    exact Nat.add_pos_left (Nat.mul_pos hm₁ (Nat.two_pow_pos _)) _
  have hmin : -1074 ≤ min e₁ e₂ := le_min h₁.le_exponent h₂.le_exponent
  obtain ⟨m, e, hm, hround, hc, hcut⟩ := exists_round hpos hmin
  have hadd : add Format.binary64 (.finite .positive m₁ e₁ hm₁) (.finite .positive m₂ e₂ hm₂) =
      .finite .positive m e hm := (normalize_of_pos hpos _ _).trans hround
  rw [hadd]
  have hle : m₁ * 2 ^ (e₁ - min e₁ e₂).toNat ≤
      m₁ <<< (e₁ - min e₁ e₂).toNat + m₂ <<< (e₂ - min e₁ e₂).toNat := by
    rw [Nat.shiftLeft_eq]
    exact Nat.le_add_right ..
  exact (under_finite hm₁ hm ((h₁.upTo_cut (min_le_left ..) hle).trans hcut)).pack hc

theorem under_add {f g : UnpackedFloat} (hf : Nonneg f) (hg : Nonneg g) :
    Under f (pack (add Format.binary64 f g)).unpack := by
  cases hf with
  | notANumber => cases hg <;> exact under_notANumber _
  | infinity =>
    cases hg with
    | notANumber => exact under_notANumber _
    | _ => exact under_infinity _
  | zero s =>
    cases hg with
    | notANumber => exact under_notANumber _
    | infinity => exact under_infinity _
    | zero s' =>
      have hsum : ∃ t, add Format.binary64 (.zero s) (.zero s') = .zero t := by
        cases s <;> cases s' <;> exact ⟨_, rfl⟩
      obtain ⟨t, ht⟩ := hsum
      rw [ht, unpack_zero]
      exact under_zero s t
    | finite hm hc => exact (under_zero_finite s hm).pack hc
  | finite hm hc =>
    cases hg with
    | notANumber => exact under_notANumber _
    | infinity => exact under_infinity _
    | zero s' => exact (under_finite hm hm (.inr ⟨rfl, le_rfl⟩)).pack hc
    | finite hm' hc' => exact under_add_finite hm hc hm' hc'

theorem not_add_lt {x y d : Float} (hy : ¬ y < 0) (hd : ¬ d < 0) (hx : ¬ y < x) : ¬ y + d < x := by
  rw [lt_iff] at hx ⊢
  exact fun h => hx (under_add (nonneg_of_not_lt_zero hy) (nonneg_of_not_lt_zero hd) _ h)

end TunnelMap.Binary
