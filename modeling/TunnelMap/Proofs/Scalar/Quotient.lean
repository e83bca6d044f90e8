import TunnelMap.Proofs.Scalar.Order

/-! Quotients in binary floating point with 64 bits. Division takes the quotient to the exponent that its
size allows, rounds it to the nearest mantissa and packs it. At one exponent the nearest mantissa does
not fall when the dividend grows, and where the exponent goes up there is a power of two between what
was rounded. So division by a finite number above nothing keeps the order, for the infinities as well;
and division by one keeps the place. -/

namespace TunnelMap.Binary

open Float.Model UnpackedFloat

/-! ### Quotients rounded to whole numbers -/

/-- The whole number nearest to a quotient; halfway between two it is the even one. -/
def nearest (a b : Nat) : Nat :=
  if 2 * (a % b) < b then a / b else if 2 * (a % b) = b then a / b + a / b % 2 else a / b + 1

theorem nearest_mul_right (a b : Nat) {c : Nat} (hc : 0 < c) :
    nearest (a * c) (b * c) = nearest a b := by
  unfold nearest
  rw [Nat.mul_mod_mul_right, Nat.mul_div_mul_right _ _ hc, ← Nat.mul_assoc]
  simp only [Nat.mul_lt_mul_right hc, Nat.mul_left_inj hc.ne']

theorem nearest_mul_self (a : Nat) {b : Nat} (hb : 0 < b) : nearest (a * b) b = a := by
  simp [nearest, hb]

theorem le_nearest (a b : Nat) : a / b ≤ nearest a b ∧ nearest a b ≤ a / b + 1 := by
  unfold nearest
  split_ifs <;> omega

theorem nearest_mono (b : Nat) {a a' : Nat} (h : a ≤ a') : nearest a b ≤ nearest a' b := by
  obtain hlt | heq := (Nat.div_le_div_right h : a / b ≤ a' / b).lt_or_eq
  · exact (le_nearest a b).2.trans ((Nat.succ_le_of_lt hlt).trans (le_nearest a' b).1)
  · -- The quotients agree in their whole parts, so the remainders are in order.
    have hmod : a % b ≤ a' % b := by
      have ha := Nat.div_add_mod a b
      have ha' := Nat.div_add_mod a' b
      rw [heq] at ha
      omega
    unfold nearest
    rw [heq]
    split_ifs <;> omega

/-- A quotient as a mantissa with its two residual bits. -/
def ofRatio (a b : Nat) : ExtendedMantissa :=
  ⟨a / b, decide (b ≤ 2 * (a % b)), decide (2 * (a % b) % b ≠ 0)⟩

section

variable {a b : Nat} (hb : 0 < b)

include hb

theorem twice_mod_eq_zero : 2 * (a % b) % b = 0 ↔ a % b = 0 ∨ 2 * (a % b) = b := by
  have hlt : a % b < b := Nat.mod_lt a hb
  by_cases hhalf : 2 * (a % b) < b
  · rw [Nat.mod_eq_of_lt hhalf]
    omega
  · rw [Nat.mod_eq_sub_mod (by omega), Nat.mod_eq_of_lt (by omega)]
    omega

theorem roundedMantissa_ofRatio : (ofRatio a b).roundedMantissa = nearest a b := by
  have hsticky := twice_mod_eq_zero (a := a) hb
  unfold ofRatio nearest
  by_cases hround : b ≤ 2 * (a % b) <;> by_cases hzero : 2 * (a % b) % b = 0
  · rw [decide_eq_true hround, decide_eq_false (not_not.mpr hzero), if_neg (by omega),
      if_pos (by omega)]
    rfl
  · rw [decide_eq_true hround, decide_eq_true hzero, if_neg (by omega), if_neg (by omega)]
    rfl
  · rw [decide_eq_false hround, decide_eq_false (not_not.mpr hzero), if_pos (by omega)]
    rfl
  · rw [decide_eq_false hround, decide_eq_true hzero, if_pos (by omega)]
    rfl

theorem ofMantissaAndAccuracy_ratio :
    ExtendedMantissa.ofMantissaAndAccuracy (a / b) (accuracyOfFraction (a % b) b) =
      ofRatio a b := by
  have hsticky := twice_mod_eq_zero (a := a) hb
  unfold accuracyOfFraction ofRatio
  split_ifs with hzero
  · rw [decide_eq_false (by omega), decide_eq_false (by omega)]
    rfl
  · rcases hc : compare (2 * (a % b)) b with _ | _ | _
    · rw [compare_lt_iff_lt] at hc
      rw [decide_eq_false (by omega), decide_eq_true (by omega)]
      rfl
    · rw [compare_eq_iff_eq] at hc
      rw [decide_eq_true (by omega), decide_eq_false (by omega)]
      rfl
    · rw [compare_gt_iff_gt] at hc
      rw [decide_eq_true (by omega), decide_eq_true (by omega)]
      rfl

theorem shiftRightOne_ofRatio : (ofRatio a b).shiftRightOne = ofRatio a (b * 2) := by
  have hsticky := twice_mod_eq_zero (a := a) hb
  have hlt : a % b < b := Nat.mod_lt a hb
  have hmod : a % (b * 2) = a % b + b * (a / b % 2) := Nat.mod_mul
  have hbit : a / b % 2 = 0 ∨ a / b % 2 = 1 := Nat.mod_two_eq_zero_or_one _
  have hround : (a / b % 2 ≠ 0) ↔ b * 2 ≤ 2 * (a % (b * 2)) := by
    rcases hbit with h | h <;> rw [hmod, h] <;> omega
  have hrest : 2 * (a % (b * 2)) % (b * 2) = 2 * (a % b) := by
    rw [Nat.mul_comm b 2, Nat.mul_mod_mul_left, Nat.mul_comm 2 b, Nat.mod_mul_right_mod]
  unfold ofRatio ExtendedMantissa.shiftRightOne
  rw [hrest, Nat.div_div_eq_div_mul]
  congr 1
  · rw [Bool.eq_iff_iff, bne_iff_ne, decide_eq_true_iff]
    exact hround
  · rw [← Bool.decide_or, decide_eq_decide]
    omega

theorem shiftRight_ofRatio (k : Nat) : ofRatio a b >>> k = ofRatio a (b * 2 ^ k) := by
  induction k with
  | zero => rw [pow_zero, Nat.mul_one]; rfl
  | succ k ih =>
    calc ofRatio a b >>> (k + 1) = (ofRatio a b >>> k).shiftRightOne := rfl
      _ = ofRatio a (b * 2 ^ (k + 1)) := by
        rw [ih, shiftRightOne_ofRatio (Nat.mul_pos hb (Nat.two_pow_pos k)), Nat.mul_assoc, pow_succ]

end

/-! ### Rounding -/

/-- The quotient `a / b · 2^e`, rounded, in units of the least positive number. -/
def rounded (a b : Nat) (e : Int) : Nat :=
  nearest a (b * 2 ^ (targetOf (a / b) e - e).toNat) * 2 ^ (targetOf (a / b) e + 1074).toNat

section

variable {a b : Nat} {e : Int} (hb : 0 < b) (he : e ≤ targetOf (a / b) e)

include he

theorem nearest_le : nearest a (b * 2 ^ (targetOf (a / b) e - e).toNat) ≤ 2 ^ 53 := by
  have hexp : (a / b).log2 + 1 ≤ 53 + (targetOf (a / b) e - e).toNat := by
    unfold targetOf at he ⊢
    omega
  refine (le_nearest ..).2.trans (Nat.succ_le_of_lt ?_)
  rw [← Nat.div_div_eq_div_mul]
  refine (Nat.div_lt_iff_lt_mul (Nat.two_pow_pos _)).mpr ?_
  calc a / b < 2 ^ ((a / b).log2 + 1) := Nat.lt_log2_self
    _ ≤ 2 ^ (53 + (targetOf (a / b) e - e).toNat) := Nat.pow_le_pow_right two_pos hexp
    _ = 2 ^ 53 * 2 ^ (targetOf (a / b) e - e).toNat := pow_add ..

theorem nearest_normal :
    2 ^ 52 ≤ nearest a (b * 2 ^ (targetOf (a / b) e - e).toNat) ∨ targetOf (a / b) e = -1074 := by
  refine or_iff_not_imp_right.mpr fun hne => ?_
  have hpos : a / b ≠ 0 := fun h => by
    rw [h, targetOf, Nat.log2_zero] at he hne
    omega
  have hexp : 52 + (targetOf (a / b) e - e).toNat = (a / b).log2 := by
    unfold targetOf at he hne ⊢
    omega
  refine le_trans ?_ (le_nearest ..).1
  rw [← Nat.div_div_eq_div_mul, Nat.le_div_iff_mul_le (Nat.two_pow_pos _), ← pow_add, hexp]
  exact Nat.log2_self_le hpos

include hb

/-- A quotient in other units has the exponent that it had. -/
theorem targetOf_scaled (j : Nat) : targetOf (a * 2 ^ j / b) (e - j) = targetOf (a / b) e := by
  have hpow : 0 < 2 ^ j := Nat.two_pow_pos j
  obtain hzero | hpos := (a / b).eq_zero_or_pos
  · have hlt : a * 2 ^ j / b < 2 ^ j := by
      have ha : a < b := (Nat.div_eq_zero_iff_lt hb).mp hzero
      exact (Nat.div_lt_iff_lt_mul hb).mpr
        (Nat.mul_comm b _ ▸ Nat.mul_lt_mul_of_pos_right ha hpow)
    have hlog : (a * 2 ^ j / b).log2 ≤ j := by
      obtain h0 | h0 := (a * 2 ^ j / b).eq_zero_or_pos
      · rw [h0, Nat.log2_zero]
        exact Nat.zero_le j
      · exact ((Nat.log2_lt h0.ne').mpr hlt).le
    rw [hzero] at he ⊢
    unfold targetOf at he ⊢
    rw [Nat.log2_zero] at he ⊢
    omega
  · have hle := (Nat.le_div_iff_mul_le hb).mp (Nat.log2_self_le hpos.ne')
    have hlt := (Nat.div_lt_iff_lt_mul hb).mp (Nat.lt_log2_self (n := a / b))
    have hle' : 2 ^ ((a / b).log2 + j) ≤ a * 2 ^ j / b := by
      rw [Nat.le_div_iff_mul_le hb, pow_add, mul_right_comm]
      exact Nat.mul_le_mul_right _ hle
    have hlt' : a * 2 ^ j / b < 2 ^ ((a / b).log2 + j + 1) := by
      rw [Nat.div_lt_iff_lt_mul hb, Nat.add_right_comm, pow_add, mul_right_comm]
      exact Nat.mul_lt_mul_of_pos_right hlt hpow
    have hlog : (a * 2 ^ j / b).log2 = (a / b).log2 + j :=
      (Nat.log2_eq_iff ((Nat.two_pow_pos _).trans_le hle').ne').mpr ⟨hle', hlt'⟩
    unfold targetOf
    omega

theorem rounded_scaled (j : Nat) : rounded (a * 2 ^ j) b (e - j) = rounded a b e := by
  have hexp : (targetOf (a / b) e - (e - j)).toNat = (targetOf (a / b) e - e).toNat + j := by omega
  unfold rounded
  rw [targetOf_scaled hb he, hexp, pow_add, ← Nat.mul_assoc,
    nearest_mul_right _ _ (Nat.two_pow_pos j)]

end

theorem rounded_mono {b : Nat} {e : Int} (he : e ≤ -1074) {a a' : Nat} (h : a ≤ a') :
    rounded a b e ≤ rounded a' b e := by
  have hdiv : a / b ≤ a' / b := Nat.div_le_div_right h
  have hlog : (a / b).log2 ≤ (a' / b).log2 := by
    obtain hzero | hpos := (a / b).eq_zero_or_pos
    · rw [hzero, Nat.log2_zero]
      exact Nat.zero_le _
    · exact (Nat.le_log2 (hpos.trans_le hdiv).ne').mpr ((Nat.log2_self_le hpos.ne').trans hdiv)
  have ht : targetOf (a / b) e ≤ targetOf (a' / b) e := by
    unfold targetOf
    omega
  have htmin := le_targetOf (a / b) e
  unfold rounded
  obtain hlt | heq := ht.lt_or_eq
  · -- Between the two there is a power of two.
    have hnormal := (nearest_normal (he.trans (le_targetOf (a' / b) e))).resolve_right (by omega)
    calc _ ≤ 2 ^ 53 * 2 ^ (targetOf (a / b) e + 1074).toNat :=
          Nat.mul_le_mul_right _ (nearest_le (he.trans htmin))
      _ ≤ 2 ^ 52 * 2 ^ (targetOf (a' / b) e + 1074).toNat := full_le_normal (by omega)
      _ ≤ _ := Nat.mul_le_mul_right _ hnormal
  · rw [heq]
    exact Nat.mul_le_mul_right _ (nearest_mono _ h)

/-! ### Division -/

/-- What a quotient is rounded to and packed as. -/
theorem key_roundWithAccuracy (s : Sign) {a b : Nat} {e : Int} (hb : 0 < b)
    (he : e ≤ targetOf (a / b) e) :
    let f := (pack (roundWithAccuracy Format.binary64 s (a / b) e
      (accuracyOfFraction (a % b) b))).unpack
    f ≠ .notANumber ∧ key f = signed s (min (rounded a b e) top) := by
  intro f
  have hsum : e + ((targetOf (a / b) e - e).toNat : Int) = targetOf (a / b) e := by omega
  have hshift : shiftToTargetExponent Format.binary64 (a / b) e (accuracyOfFraction (a % b) b) =
      (ofRatio a (b * 2 ^ (targetOf (a / b) e - e).toNat), targetOf (a / b) e) := by
    unfold shiftToTargetExponent shiftToExponent
    rw [targetExponent_eq, ofMantissaAndAccuracy_ratio hb]
    exact congrArg₂ Prod.mk (shiftRight_ofRatio hb _) hsum
  obtain ⟨m, e', hm, he', hc, -, hvalue⟩ :=
    exists_settled (nearest_le he) (le_targetOf ..) (nearest_normal he)
  have hf : f = (pack (if h : m = 0 then .zero s else .finite s m e' (Nat.pos_of_ne_zero h))).unpack := by
    subst f
    unfold roundWithAccuracy
    simp only [hshift, roundedMantissa_ofRatio (Nat.mul_pos hb (Nat.two_pow_pos _)), hm, he']
  rw [hf]
  change _ ∧ _ = signed s (min (nearest a _ * _) top)
  rw [← hvalue]
  split_ifs with hzero
  · rw [unpack_zero, hzero, Nat.zero_mul, Nat.zero_min]
    exact ⟨nofun, by cases s <;> rfl⟩
  · rw [unpack_finite hc]
    split_ifs with hlarge
    · rw [Nat.min_eq_right (hc.top_le_value hlarge)]
      exact ⟨by simp, rfl⟩
    · rw [Nat.min_eq_left (hc.value_lt_top (by omega)).le]
      exact ⟨by simp, rfl⟩

/-- A division makes room for all the bits of the quotient before it divides. -/
theorem le_targetOf_shifted {m m' : Nat} (hm : 0 < m) (hm' : 0 < m') {d t : Int}
    (ht : t ≤ max ((m.log2 : Int) - m'.log2 + d - 53) (-1074)) :
    t ≤ targetOf (m * 2 ^ (d - t).toNat / m') t := by
  by_cases hlow : t ≤ -1074
  · exact hlow.trans (le_targetOf ..)
  · have hquotient : 2 ^ 52 ≤ m * 2 ^ (d - t).toNat / m' := by
      refine (Nat.le_div_iff_mul_le hm').mpr ?_
      calc 2 ^ 52 * m' ≤ 2 ^ 52 * 2 ^ (m'.log2 + 1) :=
            Nat.mul_le_mul_left _ Nat.lt_log2_self.le
        _ = 2 ^ (52 + (m'.log2 + 1)) := (pow_add ..).symm
        _ ≤ 2 ^ (m.log2 + (d - t).toNat) := Nat.pow_le_pow_right two_pos (by omega)
        _ = 2 ^ m.log2 * 2 ^ (d - t).toNat := pow_add ..
        _ ≤ m * 2 ^ (d - t).toNat := Nat.mul_le_mul_right _ (Nat.log2_self_le hm.ne')
    have hlog := (Nat.le_log2 ((Nat.two_pow_pos 52).trans_le hquotient).ne').mpr hquotient
    unfold targetOf
    omega

theorem signed_sign_mul {f : Nat → Nat} (s : Sign) {n : Nat} (hn : 0 < n) :
    (signed s n).sign * (f (signed s n).natAbs : Int) = signed s (f n) := by
  have hsign : (n : Int).sign = 1 := Int.sign_eq_one_of_pos (Int.natCast_pos.mpr hn)
  cases s <;> simp [signed, hsign]

theorem sign_mul_mono {f : Nat → Nat} (hf : Monotone f) {a b : Int} (h : a ≤ b) :
    a.sign * (f a.natAbs : Int) ≤ b.sign * f b.natAbs := by
  obtain hb | hb := lt_or_ge b 0
  · have hf' : f b.natAbs ≤ f a.natAbs := hf (by omega)
    rw [Int.sign_eq_neg_one_of_neg (h.trans_lt hb), Int.sign_eq_neg_one_of_neg hb]
    omega
  · have hb' : 0 ≤ b.sign * (f b.natAbs : Int) :=
      mul_nonneg (Int.sign_nonneg_iff.mpr hb) (Int.natCast_nonneg _)
    obtain ha | rfl | ha := lt_trichotomy a 0
    · rw [Int.sign_eq_neg_one_of_neg ha]
      omega
    · simpa using hb'
    · have hf' : f a.natAbs ≤ f b.natAbs := hf (by omega)
      rw [Int.sign_eq_one_of_pos ha, Int.sign_eq_one_of_pos (ha.trans_le h)]
      omega

/-- The place of a quotient by `m · 2^e`, from the place of the dividend. -/
def divided (m : Nat) (e : Int) (n : Nat) : Nat :=
  if n < top then min (rounded (n * 2 ^ (971 - e).toNat) m (-2045)) top else top

theorem divided_mono (m : Nat) (e : Int) : Monotone (divided m e) := by
  intro n n' h
  unfold divided
  split_ifs with hn hn'
  · exact min_le_min_right _ (rounded_mono (by norm_num) (Nat.mul_le_mul_right _ h))
  · exact min_le_right ..
  · omega
  · exact le_rfl

theorem key_div_finite (s : Sign) {m m' : Nat} {e e' : Int} (hm : 0 < m) (hm' : 0 < m')
    (hc : Canonical m e) (hlt : e < 972) (he' : e' < 972) :
    let f := (pack (div Format.binary64 (.finite s m e hm) (.finite .positive m' e' hm'))).unpack
    f ≠ .notANumber ∧ key f = signed s (divided m' e' (m * 2 ^ (e + 1074).toNat)) := by
  obtain ⟨t, ht⟩ : ∃ t, t = min (e - e')
      (max (totalExponent m e - totalExponent m' e' - 53) (-1074)) := ⟨_, rfl⟩
  have hdiv : div Format.binary64 (.finite s m e hm) (.finite .positive m' e' hm') =
      roundWithAccuracy Format.binary64 s (m * 2 ^ (e - e' - t).toNat / m') t
        (accuracyOfFraction (m * 2 ^ (e - e' - t).toNat % m') m') := by
    rw [← Nat.shiftLeft_eq, ht]
    cases s <;> rfl
  have he := hc.le_exponent
  have hroom : t ≤ targetOf (m * 2 ^ (e - e' - t).toNat / m') t := by
    refine le_targetOf_shifted hm hm' ?_
    unfold totalExponent at ht
    omega
  -- In the units that `divided` counts in, the dividend is a whole number whatever it is.
  have hshift : t - ((t + 2045).toNat : Int) = -2045 := by omega
  have hexp : (e - e' - t).toNat + (t + 2045).toNat = (e + 1074).toNat + (971 - e').toNat := by omega
  have hscaled : rounded (m * 2 ^ (e - e' - t).toNat) m' t =
      rounded (m * 2 ^ (e + 1074).toNat * 2 ^ (971 - e').toNat) m' (-2045) := by
    rw [← rounded_scaled hm' hroom (t + 2045).toNat, hshift, Nat.mul_assoc, ← pow_add, hexp, pow_add,
      ← Nat.mul_assoc]
  rw [hdiv, divided, if_pos (hc.value_lt_top hlt), ← hscaled]
  exact key_roundWithAccuracy s hm' hroom

theorem unpack_div (x y : Float) : (x / y).toModel.unpack =
    (pack (div Format.binary64 x.toModel.unpack y.toModel.unpack)).unpack := rfl

/-- A number that is divided by a finite one above nothing. -/
theorem key_div {x k : Float} {m : Nat} {e : Int} {hm : 0 < m}
    (hk : k.toModel.unpack = .finite .positive m e hm) (hx : IsNumber x) :
    IsNumber (x / k) ∧ key (x / k).toModel.unpack =
      (key x.toModel.unpack).sign * divided m e (key x.toModel.unpack).natAbs := by
  rw [IsNumber, unpack_div, hk]
  have hheld := hx.held
  generalize x.toModel.unpack = f at hheld ⊢
  cases hheld with
  | infinity s =>
    have hquotient : div Format.binary64 (.infinity s) (.finite .positive m e hm) = .infinity s := by
      cases s <;> rfl
    have htop : divided m e top = top := if_neg (lt_irrefl top)
    rw [hquotient, unpack_infinity, key_infinity, signed_sign_mul s top_pos, htop]
    exact ⟨by simp, rfl⟩
  | zero s =>
    have hquotient : div Format.binary64 (.zero s) (.finite .positive m e hm) = .zero s := by
      cases s <;> rfl
    rw [hquotient, unpack_zero]
    exact ⟨by simp, (zero_mul _).symm⟩
  | @finite s m₁ e₁ hm₁ hc he =>
    obtain ⟨hnumber, hkey⟩ := key_div_finite s hm₁ hm hc he (canonical_of_unpack hk).2
    rw [key_finite, signed_sign_mul s (Nat.mul_pos hm₁ (Nat.two_pow_pos _))]
    exact ⟨hnumber, hkey⟩

/-- Division by a finite number above nothing keeps the order. -/
theorem div_le_div {x y k : Float} (hk : Proper k) (h : x ≤ y) : x / k ≤ y / k := by
  obtain ⟨m, e, hm, hk⟩ := hk
  obtain ⟨hx, hy⟩ := isNumber_of_le h
  obtain ⟨hxk, hxkey⟩ := key_div hk hx
  obtain ⟨hyk, hykey⟩ := key_div hk hy
  rw [le_iff_key hx hy] at h
  rw [le_iff_key hxk hyk, hxkey, hykey]
  exact sign_mul_mono (divided_mono m e) h

theorem targetOf_canonical {m : Nat} {e : Int} (hm : 0 < m) (hc : Canonical m e) :
    targetOf m e = e := by
  have hlog : m.log2 < 53 := (Nat.log2_lt hm.ne').mpr hc.mantissa_lt
  have he := hc.le_exponent
  unfold targetOf
  obtain hnormal | rfl := hc.normal
  · have hlog' : 52 ≤ m.log2 := (Nat.le_log2 hm.ne').mpr hnormal
    omega
  · omega

/-- Division by one leaves the place. -/
theorem divided_one {m : Nat} {e : Int} (hm : 0 < m) (hc : Canonical m e) (he : e < 972) :
    divided (2 ^ 52) (-52) (m * 2 ^ (e + 1074).toNat) = m * 2 ^ (e + 1074).toNat := by
  have hmin := hc.le_exponent
  have hdiv : m * 2 ^ 52 / 2 ^ 52 = m := Nat.mul_div_cancel _ (Nat.two_pow_pos 52)
  have hexact : rounded (m * 2 ^ 52) (2 ^ 52) e = m * 2 ^ (e + 1074).toNat := by
    rw [rounded, hdiv, targetOf_canonical hm hc, sub_self, Int.toNat_zero, pow_zero, Nat.mul_one,
      nearest_mul_self _ (Nat.two_pow_pos 52)]
  have hroom : e ≤ targetOf (m * 2 ^ 52 / 2 ^ 52) e := by
    rw [hdiv, targetOf_canonical hm hc]
  have hshift : e - ((e + 2045).toNat : Int) = -2045 := by omega
  have hexp : 52 + (e + 2045).toNat = (e + 1074).toNat + (971 - (-52 : Int)).toNat := by omega
  have hscaled := rounded_scaled (Nat.two_pow_pos 52) hroom (e + 2045).toNat
  rw [hshift, hexact, Nat.mul_assoc, ← pow_add, hexp, pow_add, ← Nat.mul_assoc] at hscaled
  rw [divided, if_pos (hc.value_lt_top he), hscaled]
  exact Nat.min_eq_left (hc.value_lt_top he).le

theorem key_div_one {x : Float} (hx : IsNumber x) :
    IsNumber (x / 1) ∧ key (x / 1).toModel.unpack = key x.toModel.unpack := by
  have hone : (1 : Float).toModel.unpack = .finite .positive (2 ^ 52) (-52) (by norm_num) := rfl
  obtain ⟨hnumber, hkey⟩ := key_div hone hx
  refine ⟨hnumber, hkey.trans ?_⟩
  have hheld := hx.held
  generalize x.toModel.unpack = f at hheld ⊢
  cases hheld with
  | infinity s => rw [key_infinity, signed_sign_mul s top_pos, divided, if_neg (lt_irrefl top)]
  | zero s => exact zero_mul _
  | finite hm hc he =>
    rw [key_finite, signed_sign_mul _ (Nat.mul_pos hm (Nat.two_pow_pos _)), divided_one hm hc he]

/-- What is not a number stays so when it is divided. -/
theorem IsNumber.of_div_one {x : Float} (h : IsNumber (x / 1)) : IsNumber x := by
  intro hx
  rw [IsNumber, unpack_div, hx] at h
  exact h unpack_packedNaN

theorem le_of_div_one {x y : Float} (h : x / 1 ≤ y / 1) : x ≤ y := by
  obtain ⟨hx, hy⟩ := (isNumber_of_le h).imp IsNumber.of_div_one IsNumber.of_div_one
  obtain ⟨hx', hxkey⟩ := key_div_one hx
  obtain ⟨hy', hykey⟩ := key_div_one hy
  rw [le_iff_key hx' hy', hxkey, hykey] at h
  exact (le_iff_key hx hy).mpr h

end TunnelMap.Binary
