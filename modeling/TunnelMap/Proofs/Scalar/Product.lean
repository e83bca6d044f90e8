import TunnelMap.Proofs.Scalar.Quotient

/-! Products in binary floating point with 64 bits. A product of finite numbers is rounded to the nearest
mantissa and packed. Rounding keeps the order and leaves what has a mantissa in form. So a product that
is below a number by a mantissa's step comes out below it, and one that is above by a step comes out
above. A number with a full mantissa is moved by more than that when it is scaled by a tenth. -/

namespace TunnelMap.Binary

open Float.Model UnpackedFloat

/-! ### What rounding leaves -/

theorem rounded_of_lt {m : Nat} (hm : m < 2 ^ 53) (j : Nat) :
    rounded (m * 2 ^ j) 1 (-1074) = m * 2 ^ j := by
  obtain rfl | hpos := m.eq_zero_or_pos
  · simp [rounded, nearest]
  · have hlog : m.log2 < 53 := (Nat.log2_lt hpos.ne').mpr hm
    obtain ⟨r, hr, hr'⟩ : ∃ r ≤ j, targetOf (m * 2 ^ j / 1) (-1074) = r - 1074 := by
      refine ⟨m.log2 + j - 52, by omega, ?_⟩
      rw [targetOf, Nat.div_one, log2_mul_two_pow hpos]
      omega
    have hsplit : m * 2 ^ j = m * 2 ^ (j - r) * 2 ^ r := by
      rw [Nat.mul_assoc, ← pow_add, Nat.sub_add_cancel hr]
    have hshift : ((r : Int) - 1074 - -1074).toNat = r := by omega
    have hunits : ((r : Int) - 1074 + 1074).toNat = r := by omega
    rw [rounded, hr', hshift, hunits, Nat.one_mul, hsplit, nearest_mul_self _ (Nat.two_pow_pos r)]

theorem rounded_of_le {m : Nat} (hm : m ≤ 2 ^ 53) (j : Nat) :
    rounded (m * 2 ^ j) 1 (-1074) = m * 2 ^ j := by
  obtain hlt | rfl := hm.lt_or_eq
  · exact rounded_of_lt hlt j
  · have hsplit : 2 ^ 53 * 2 ^ j = 2 ^ 52 * 2 ^ (j + 1) := by
      rw [← pow_add, ← pow_add]
      congr 1
      omega
    rw [hsplit, rounded_of_lt (by norm_num)]

/-! ### Multiplication -/

/-- The place of a product, from the places of its factors. -/
def multiplied (u w : Nat) : Nat := min (rounded (u * w) 1 (-2148)) top

theorem key_mul {x c : Float} {m m' : Nat} {e e' : Int} {hm : 0 < m} {hm' : 0 < m'}
    (hx : x.toModel.unpack = .finite .positive m e hm)
    (hc : c.toModel.unpack = .finite .positive m' e' hm') :
    IsNumber (x * c) ∧ key (x * c).toModel.unpack =
      multiplied (m * 2 ^ (e + 1074).toNat) (m' * 2 ^ (e' + 1074).toNat) := by
  obtain ⟨⟨-, he, hnormal⟩, -⟩ := canonical_of_unpack hx
  obtain ⟨⟨-, he', hnormal'⟩, -⟩ := canonical_of_unpack hc
  have hmul : mul Format.binary64 (.finite .positive m e hm) (.finite .positive m' e' hm') =
      roundWithAccuracy Format.binary64 .positive (m * m' / 1) (e + e')
        (accuracyOfFraction (m * m' % 1) 1) := by
    rw [Nat.div_one, Nat.mod_one]
    rfl
  -- Two mantissas that are not full have the least exponent each, and one that is full is enough.
  have hroom : e + e' ≤ targetOf (m * m' / 1) (e + e') := by
    rw [Nat.div_one]
    by_cases hfull : 2 ^ 52 ≤ m * m'
    · have hlog : 52 ≤ (m * m').log2 := (Nat.le_log2 (Nat.mul_pos hm hm').ne').mpr hfull
      unfold targetOf
      omega
    · have hleft : ¬ 2 ^ 52 ≤ m := fun h => hfull (h.trans (Nat.le_mul_of_pos_right m hm'))
      have hright : ¬ 2 ^ 52 ≤ m' := fun h => hfull (h.trans (Nat.le_mul_of_pos_left m' hm))
      have := le_targetOf (m * m') (e + e')
      omega
  have hunits : e + e' - ((e + e' + 2148).toNat : Int) = -2148 := by omega
  have hexp : (e + e' + 2148).toNat = (e + 1074).toNat + (e' + 1074).toNat := by omega
  have hscaled : rounded (m * m') 1 (e + e') =
      rounded (m * 2 ^ (e + 1074).toNat * (m' * 2 ^ (e' + 1074).toNat)) 1 (-2148) := by
    rw [← rounded_scaled one_pos hroom (e + e' + 2148).toNat, hunits, hexp, pow_add,
      Nat.mul_mul_mul_comm]
  rw [IsNumber, unpack_mul, hx, hc, hmul, multiplied, ← hscaled]
  exact key_roundWithAccuracy .positive one_pos hroom

/-- The places of a number and of a factor `n / 2^s`, multiplied. -/
theorem place_mul_place {n s : Nat} (hc : Canonical n (-(s : Int))) (m i : Nat) :
    m * 2 ^ i * (n * 2 ^ (-(s : Int) + 1074).toNat) * 2 ^ s = m * n * 2 ^ i * 2 ^ 1074 := by
  have hle := hc.le_exponent
  have hexp : (-(s : Int) + 1074).toNat + s = 1074 := by omega
  rw [Nat.mul_assoc, Nat.mul_assoc n, ← pow_add, hexp, ← Nat.mul_assoc, Nat.mul_right_comm m]

section

variable {x c : Float} {m n s : Nat} {e : Int} {hm : 0 < m} {hn : 0 < n}
  (hx : x.toModel.unpack = .finite .positive m e hm)
  (hc : c.toModel.unpack = .finite .positive n (-(s : Int)) hn)

include hx hc

/-- A product that is less than a number by a step of its mantissa comes out below it. -/
theorem mul_lt_self (h : m * n ≤ (m - 1) * 2 ^ s) : x * c < x := by
  have hcanonical := (canonical_of_unpack hx).1
  obtain ⟨hnumber, hkey⟩ := key_mul hx hc
  have hproduct : m * 2 ^ (e + 1074).toNat * (n * 2 ^ (-(s : Int) + 1074).toNat) ≤
      (m - 1) * 2 ^ (e + 1074).toNat * 2 ^ 1074 := by
    refine Nat.le_of_mul_le_mul_right (c := 2 ^ s) ?_ (Nat.two_pow_pos s)
    rw [place_mul_place (canonical_of_unpack hc).1, Nat.mul_right_comm _ (2 ^ 1074), Nat.mul_right_comm (m - 1)]
    exact Nat.mul_le_mul_right _ (Nat.mul_le_mul_right _ h)
  rw [lt_iff_key hnumber (Proper.isNumber ⟨m, e, hm, hx⟩), hkey, hx]
  refine Int.ofNat_lt.mpr ?_
  calc multiplied _ _
      ≤ rounded (m * 2 ^ (e + 1074).toNat * (n * 2 ^ (-(s : Int) + 1074).toNat)) 1 (-2148) :=
        min_le_left ..
    _ ≤ rounded ((m - 1) * 2 ^ (e + 1074).toNat * 2 ^ 1074) 1 (-1074 - (1074 : Nat)) :=
        rounded_mono (by norm_num) hproduct
    _ = (m - 1) * 2 ^ (e + 1074).toNat := by
        rw [rounded_scaled one_pos (le_targetOf ..),
          rounded_of_le ((Nat.sub_le m 1).trans hcanonical.mantissa_lt.le)]
    _ < m * 2 ^ (e + 1074).toNat :=
        Nat.mul_lt_mul_of_pos_right (Nat.sub_lt hm one_pos) (Nat.two_pow_pos _)

/-- A product that is more than a number by a step of its mantissa comes out above it. -/
theorem lt_mul_self (h : (m + 1) * 2 ^ s ≤ m * n) : x < x * c := by
  obtain ⟨hcanonical, he⟩ := canonical_of_unpack hx
  obtain ⟨hnumber, hkey⟩ := key_mul hx hc
  have hproduct : (m + 1) * 2 ^ (e + 1074).toNat * 2 ^ 1074 ≤
      m * 2 ^ (e + 1074).toNat * (n * 2 ^ (-(s : Int) + 1074).toNat) := by
    refine Nat.le_of_mul_le_mul_right (c := 2 ^ s) ?_ (Nat.two_pow_pos s)
    rw [place_mul_place (canonical_of_unpack hc).1, Nat.mul_right_comm _ (2 ^ 1074), Nat.mul_right_comm (m + 1)]
    exact Nat.mul_le_mul_right _ (Nat.mul_le_mul_right _ h)
  rw [lt_iff_key (Proper.isNumber ⟨m, e, hm, hx⟩) hnumber, hkey, hx]
  refine Int.ofNat_lt.mpr (lt_min ?_ (hcanonical.value_lt_top he))
  calc m * 2 ^ (e + 1074).toNat < (m + 1) * 2 ^ (e + 1074).toNat :=
        Nat.mul_lt_mul_of_pos_right (Nat.lt_succ_self m) (Nat.two_pow_pos _)
    _ = rounded ((m + 1) * 2 ^ (e + 1074).toNat * 2 ^ 1074) 1 (-1074 - (1074 : Nat)) := by
        rw [rounded_scaled one_pos (le_targetOf ..), rounded_of_le hcanonical.mantissa_lt]
    _ ≤ rounded (m * 2 ^ (e + 1074).toNat * (n * 2 ^ (-(s : Int) + 1074).toNat)) 1 (-2148) :=
        rounded_mono (by norm_num) hproduct

end

/-! ### Full mantissas -/

/-- A finite number above nothing whose mantissa has all its bits. -/
def Full (x : Float) : Prop :=
  ∃ m e hm, x.toModel.unpack = .finite .positive m e hm ∧ 2 ^ 52 ≤ m

/-- A number not below one with a full mantissa has a full mantissa. -/
theorem Full.of_le {x y : Float} (hx : Full x) (hy : Proper y) (h : x ≤ y) : Full y := by
  obtain ⟨m, e, hm, hx, hfull⟩ := hx
  obtain ⟨m', e', hm', hy⟩ := hy
  refine ⟨m', e', hm', hy, ?_⟩
  have hcanonical := (canonical_of_unpack hx).1
  obtain ⟨hcanonical', -⟩ := canonical_of_unpack hy
  obtain ⟨hx', hy'⟩ := isNumber_of_le h
  rw [le_iff_key hx' hy', hx, hy] at h
  have hplaces := (hcanonical.upTo_iff hcanonical').mpr (Int.ofNat_le.mp h)
  have hleast := hcanonical.le_exponent
  obtain hnormal | hsmall := hcanonical'.normal
  · exact hnormal
  · unfold UpTo at hplaces
    omega

theorem Full.mul_nine_tenths_lt {x : Float} (hx : Full x) : x * 0.9 < x := by
  obtain ⟨m, e, hm, hx, hfull⟩ := hx
  have hc : (0.9 : Float).toModel.unpack =
      .finite .positive 8106479329266893 (-(53 : Nat)) (by norm_num) := rfl
  exact mul_lt_self hx hc (by omega)

theorem Full.lt_mul_eleven_tenths {x : Float} (hx : Full x) : x < x * 1.1 := by
  obtain ⟨m, e, hm, hx, hfull⟩ := hx
  have hc : (1.1 : Float).toModel.unpack =
      .finite .positive 4953959590107546 (-(52 : Nat)) (by norm_num) := rfl
  exact lt_mul_self hx hc (by omega)

end TunnelMap.Binary
