import TunnelMap.Proofs.Scalar.Product

/-! What binary floating point with 64 bits makes of counts. A number above nothing is known by its place
in the order, and a sum or a quotient of two of them stands where the exact result is rounded to. So does
a count, whichever way it is read. Counts of at most 53 bits keep their places, and their quotients are
rounded once. -/

namespace TunnelMap.Binary

open Float.Model UnpackedFloat

/-! ### Rounding in units of the least number -/

theorem rounded_mul_right (a b : Nat) {c : Nat} (hc : 0 < c) (e : Int) :
    rounded (a * c) (b * c) e = rounded a b e := by
  unfold rounded
  rw [Nat.mul_div_mul_right _ _ hc, Nat.mul_right_comm, nearest_mul_right _ _ hc]

/-- A multiple of the divisor is rounded as a whole number. -/
theorem rounded_mul_self (a : Nat) {b : Nat} (hb : 0 < b) (e : Int) :
    rounded (a * b) b e = rounded a 1 e := by
  have hone := rounded_mul_right a 1 hb e
  rwa [Nat.one_mul] at hone

/-- Where `a / b` stands, counted in units of the least number: where it is rounded to, or with what is
infinite. -/
def settled (a b : Nat) : Nat := min (rounded a b (-1074)) top

theorem settled_mono {a a' : Nat} (h : a ≤ a') (b : Nat) : settled a b ≤ settled a' b :=
  min_le_min_right _ (rounded_mono le_rfl h)

theorem settled_mul_right (a b : Nat) {c : Nat} (hc : 0 < c) :
    settled (a * c) (b * c) = settled a b :=
  congrArg (min · top) (rounded_mul_right a b hc _)

theorem lt_top_of_le {m j : Nat} (hm : m ≤ 2 ^ 53) (hj : j < 2045) : m * 2 ^ j < top :=
  calc m * 2 ^ j ≤ 2 ^ 53 * 2 ^ j := Nat.mul_le_mul_right _ hm
    _ < 2 ^ 53 * 2 ^ (j + 1) :=
      Nat.mul_lt_mul_of_pos_left (Nat.pow_lt_pow_succ one_lt_two) (Nat.two_pow_pos 53)
    _ ≤ top := full_le_normal (by omega)

/-- What fits a mantissa is not rounded. -/
theorem settled_of_le {m j : Nat} (hm : m ≤ 2 ^ 53) (hj : j < 2045) :
    settled (m * 2 ^ j) 1 = m * 2 ^ j := by
  rw [settled, rounded_of_le hm, Nat.min_eq_left (lt_top_of_le hm hj).le]

theorem settled_pos {n : Nat} (hn : 0 < n) : 0 < settled n 1 :=
  calc 0 < 1 * 2 ^ 0 := Nat.one_pos
    _ = settled (1 * 2 ^ 0) 1 := (settled_of_le (by norm_num) (by norm_num)).symm
    _ ≤ settled n 1 := settled_mono hn 1

theorem settled_of_top_le {n : Nat} (hn : top ≤ n) : settled n 1 = top := by
  have htop : rounded top 1 (-1074) = top := rounded_of_le (by norm_num) _
  exact Nat.min_eq_right (htop.symm.trans_le (rounded_mono le_rfl hn))

/-- The place of one. -/
def unity : Nat := 2 ^ 1074

theorem unity_eq {n : Nat} (h : n = 1074) : unity = 2 ^ n := by rw [h, unity]

theorem unity_pos : 0 < unity := pow_pos two_pos _

/-- What a whole mantissa is rounded to and packed as. -/
theorem key_round {m : Nat} {e : Int} (hm : 0 < m) (he : -1074 ≤ e) :
    let f := (pack (UnpackedFloat.round Format.binary64 .positive m e)).unpack
    f ≠ .notANumber ∧ key f = settled (m * 2 ^ (e + 1074).toNat) 1 := by
  have ht := le_targetOf m e
  obtain ⟨k, hk⟩ : ∃ k, k = (e - targetOf m e).toNat := ⟨_, rfl⟩
  have hround : UnpackedFloat.round Format.binary64 .positive m e =
      roundWithAccuracy Format.binary64 .positive (m * 2 ^ k / 1) (e - k)
        (accuracyOfFraction (m * 2 ^ k % 1) 1) := by
    have hdecrease : decreaseExponent m e (Format.binary64.targetExponent (totalExponent m e)) =
        (m * 2 ^ k, e - k) := by
      rw [targetExponent_eq, decreaseExponent, Nat.shiftLeft_eq, hk]
    unfold UnpackedFloat.round
    simp only [hdecrease, Nat.div_one, Nat.mod_one]
    rfl
  have hroom : e - k ≤ targetOf (m * 2 ^ k / 1) (e - k) := by
    rw [Nat.div_one, targetOf, log2_mul_two_pow hm]
    unfold targetOf at hk ht
    omega
  have hunits : e - k - ((e - k + 1074).toNat : Int) = -1074 := by omega
  have hexp : k + (e - k + 1074).toNat = (e + 1074).toNat := by omega
  have hscaled : rounded (m * 2 ^ k) 1 (e - k) = rounded (m * 2 ^ (e + 1074).toNat) 1 (-1074) := by
    rw [← rounded_scaled one_pos hroom (e - k + 1074).toNat, hunits, Nat.mul_assoc, ← pow_add, hexp]
  rw [hround, settled, ← hscaled]
  exact key_roundWithAccuracy .positive one_pos hroom

/-! ### Places -/

/-- A number that stands at a place not below that of nothing. -/
structure At (x : Float) (n : Nat) : Prop where
  isNumber : IsNumber x
  key_eq : key x.toModel.unpack = n

namespace At

variable {x y : Float} {m n : Nat}

theorem of_finite {p : Nat} {e : Int} {hp : 0 < p} (h : x.toModel.unpack = .finite .positive p e hp) :
    At x (p * 2 ^ (e + 1074).toNat) :=
  ⟨Proper.isNumber ⟨p, e, hp, h⟩, congrArg key h⟩

/-- A number above nothing is infinite or has a mantissa. -/
theorem cases_of_pos (h : At x n) (hn : 0 < n) : (x.toModel.unpack = .infinity .positive ∧ n = top) ∨
    ∃ m e hm, x.toModel.unpack = .finite .positive m e hm ∧ n = m * 2 ^ (e + 1074).toNat ∧ n < top := by
  obtain ⟨hx, hkey⟩ := h
  have htop := top_pos
  have hheld := hx.held
  generalize x.toModel.unpack = f at hheld hkey ⊢
  cases hheld with
  | infinity s =>
    cases s with
    | positive => exact .inl ⟨rfl, (Int.ofNat.inj hkey).symm⟩
    | negative =>
      simp only [key, signed] at hkey
      omega
  | zero s =>
    simp only [key] at hkey
    omega
  | @finite s m e hm hc he =>
    cases s with
    | positive =>
      obtain rfl : m * 2 ^ (e + 1074).toNat = n := Int.ofNat.inj hkey
      exact .inr ⟨m, e, hm, rfl, rfl, hc.value_lt_top he⟩
    | negative =>
      rw [key_finite, signed] at hkey
      omega

theorem finite (h : At x n) (hn : 0 < n) (hlt : n < top) :
    ∃ m e hm, x.toModel.unpack = .finite .positive m e hm ∧ n = m * 2 ^ (e + 1074).toNat := by
  obtain ⟨-, heq⟩ | ⟨m, e, hm, hx, heq, -⟩ := h.cases_of_pos hn
  · exact (hlt.ne heq).elim
  · exact ⟨m, e, hm, hx, heq⟩

theorem lt_iff (h : At x m) (h' : At y n) : x < y ↔ m < n := by
  rw [lt_iff_key h.isNumber h'.isNumber, h.key_eq, h'.key_eq, Int.ofNat_lt]

theorem le_iff (h : At x m) (h' : At y n) : x ≤ y ↔ m ≤ n := by
  rw [le_iff_key h.isNumber h'.isNumber, h.key_eq, h'.key_eq, Int.ofNat_le]

/-- There is but one number at a place beside that of nothing. -/
theorem eq (h : At x n) (h' : At y n) (hn : 0 < n) (hlt : n < top) : x = y := by
  obtain ⟨p, e, hp, hx, -⟩ := h.finite hn hlt
  by_contra hne
  have := Binary.lt_of_le_of_ne ((h.le_iff h').mpr le_rfl) (.inl ⟨p, e, hp, hx⟩) hne
  exact lt_irrefl n ((h.lt_iff h').mp this)

theorem infinite (h : x.toModel.unpack = .infinity .positive) : At x top :=
  ⟨by simp [IsNumber, h], congrArg key h⟩

theorem unpack_add (x y : Float) : (x + y).toModel.unpack =
    (pack (UnpackedFloat.add Format.binary64 x.toModel.unpack y.toModel.unpack)).unpack := rfl

/-- Finite numbers are brought to the smaller exponent, added, and rounded. -/
theorem add_finite {p p' : Nat} {e e' : Int} {hp : 0 < p} {hp' : 0 < p'}
    (hx : x.toModel.unpack = .finite .positive p e hp) (hy : y.toModel.unpack = .finite .positive p' e' hp') :
    At (x + y) (settled (p * 2 ^ (e + 1074).toNat + p' * 2 ^ (e' + 1074).toNat) 1) := by
  have he := (canonical_of_unpack hx).1.le_exponent
  have he' := (canonical_of_unpack hy).1.le_exponent
  obtain ⟨q, hq⟩ : ∃ q, q = p * 2 ^ (e - min e e').toNat + p' * 2 ^ (e' - min e e').toNat := ⟨_, rfl⟩
  have hpos : 0 < q := hq ▸ Nat.add_pos_left (Nat.mul_pos hp (Nat.two_pow_pos _)) _
  have hadd : UnpackedFloat.add Format.binary64 (.finite .positive p e hp)
      (.finite .positive p' e' hp') = UnpackedFloat.round Format.binary64 .positive q (min e e') := by
    rw [← normalize_of_pos hpos _ .positive, hq, ← Nat.shiftLeft_eq, ← Nat.shiftLeft_eq]
    rfl
  have hunits : q * 2 ^ (min e e' + 1074).toNat =
      p * 2 ^ (e + 1074).toNat + p' * 2 ^ (e' + 1074).toNat := by
    have hexp : (e - min e e').toNat + (min e e' + 1074).toNat = (e + 1074).toNat := by omega
    have hexp' : (e' - min e e').toNat + (min e e' + 1074).toNat = (e' + 1074).toNat := by omega
    rw [hq, Nat.add_mul, Nat.mul_assoc, Nat.mul_assoc, ← pow_add, ← pow_add, hexp, hexp']
  obtain ⟨hnumber, hkey⟩ := key_round hpos (le_min he he')
  rw [← hadd, ← hx, ← hy] at hnumber hkey
  exact ⟨hnumber, hunits ▸ hkey⟩

/-- A sum stands where the sum of the places is rounded to. -/
theorem add (h : At x m) (h' : At y n) (hm : 0 < m) (hn : 0 < n) : At (x + y) (settled (m + n) 1) := by
  obtain ⟨hx, htop⟩ | ⟨p, e, hp, hx, rfl, -⟩ := h.cases_of_pos hm
  · rw [settled_of_top_le (htop.symm.trans_le (Nat.le_add_right ..))]
    refine infinite ?_
    rw [unpack_add, hx]
    obtain ⟨hy, -⟩ | ⟨_, _, _, hy, -⟩ := h'.cases_of_pos hn <;> rw [hy] <;> exact unpack_infinity _
  · obtain ⟨hy, htop⟩ | ⟨p', e', hp', hy, rfl, -⟩ := h'.cases_of_pos hn
    · rw [settled_of_top_le (htop.symm.trans_le (Nat.le_add_left ..))]
      refine infinite ?_
      rw [unpack_add, hx, hy]
      exact unpack_infinity _
    · exact add_finite hx hy

/-- A product of finite numbers stands where the product of the places is rounded to. -/
theorem mul (h : At x m) (h' : At y n) (hm : 0 < m) (hmlt : m < top) (hn : 0 < n) (hlt : n < top) :
    At (x * y) (multiplied m n) := by
  obtain ⟨p, e, hp, hx, rfl⟩ := h.finite hm hmlt
  obtain ⟨p', e', hp', hy, rfl⟩ := h'.finite hn hlt
  obtain ⟨hnumber, hkey⟩ := key_mul hx hy
  exact ⟨hnumber, hkey⟩

/-- A quotient of finite numbers stands where the quotient of the places is rounded to. -/
theorem div (h : At x m) (h' : At y n) (hm : 0 < m) (hmlt : m < top) (hn : 0 < n) (hlt : n < top) :
    At (x / y) (settled (m * unity) n) := by
  obtain ⟨p, e, hp, hy, rfl⟩ := h'.finite hn hlt
  obtain ⟨hc, he⟩ := canonical_of_unpack hy
  have hmin := hc.le_exponent
  have hpow := Nat.two_pow_pos (e + 1074).toNat
  have hexp : (971 - e).toNat + (e + 1074).toNat = 1074 + 971 := by omega
  have hplace : divided p e m = settled (m * unity) (p * 2 ^ (e + 1074).toNat) := by
    have hscaled := rounded_scaled (a := m * unity) hn (le_targetOf _ (-1074)) 971
    rw [divided, if_pos hmlt, settled, ← hscaled, ← rounded_mul_right _ p hpow, Nat.mul_assoc,
      Nat.mul_assoc m, unity, ← pow_add, ← pow_add, hexp]
    rfl
  obtain ⟨hnumber, hkey⟩ := key_div hy h.isNumber
  rw [h.key_eq, Int.natAbs_natCast, hplace, Int.sign_eq_one_of_pos (Int.natCast_pos.mpr hm),
    one_mul] at hkey
  exact ⟨hnumber, hkey⟩

end At

theorem at_zero : At (Scalar.ofNat 0 : Float) 0 := by
  have hzero : (Scalar.ofNat 0 : Float).toModel.unpack = .zero .positive := rfl
  exact ⟨by simp [IsNumber, hzero], congrArg key hzero⟩

/-! ### Counts -/

theorem count_pos {n : Nat} (hn : 0 < n) : 0 < n * unity := Nat.mul_pos hn (pow_pos two_pos _)

theorem count_lt_top {n : Nat} (hn : n ≤ 2 ^ 53) : n * unity < top :=
  lt_top_of_le (j := 1074) hn (by norm_num)

theorem unity_lt_top : unity < top := by
  rw [← Nat.one_mul unity]
  exact count_lt_top (by norm_num)

/-- The place of a count that keeps all its bits. -/
theorem settled_count {n : Nat} (hn : n ≤ 2 ^ 53) : settled (n * unity) 1 = n * unity :=
  settled_of_le hn (by norm_num)

theorem at_toFloat {n : Nat} (hn : 0 < n) (hlt : n < 2 ^ 53) :
    At n.toUInt64.toFloat (n * unity) := by
  have hnat : n.toUInt64.toNat = n := by
    rw [Nat.toUInt64_eq, UInt64.toNat_ofNat', Nat.mod_eq_of_lt (hlt.trans (by norm_num))]
  have hround : n.toUInt64.toFloat.toModel =
      pack (UnpackedFloat.round Format.binary64 .positive n 0) := by
    rw [← normalize_of_pos hn 0 .positive]
    change pack (UnpackedFloat.normalize _ (n.toUInt64.toNat : Int) 0 .positive) = _
    rw [hnat]
  have hunits : ((0 : Int) + 1074).toNat = 1074 := rfl
  obtain ⟨hnumber, hkey⟩ := key_round hn (e := 0) (by norm_num)
  rw [← unity_eq hunits, settled_count hlt.le] at hkey
  rw [← hround] at hnumber hkey
  exact ⟨hnumber, hkey⟩

/-- A count below all full mantissas is read as a word and multiplied by one. -/
theorem at_ofNat_of_lt {n : Nat} (hn : 0 < n) (hlt : n < 2 ^ 53) :
    At (Scalar.ofNat n : Float) (n * unity) := by
  have hunits : (-2148 : Int) = -1074 - (1074 : Nat) := by norm_num
  have hone : At (Float.ofBits 4607182418800017408) (1 * unity) := by
    have hunpack : (Float.ofBits 4607182418800017408).toModel.unpack =
      .finite .positive (2 ^ 52) (-52) (by norm_num) := rfl
    have hexp : 52 + ((-52 : Int) + 1074).toNat = 1074 := rfl
    have hplace : 2 ^ 52 * 2 ^ ((-52 : Int) + 1074).toNat = 1 * unity := by
      rw [Nat.one_mul, ← pow_add, unity_eq hexp]
    exact hplace ▸ At.of_finite hunpack
  have hfloat : (Scalar.ofNat n : Float) = n.toUInt64.toFloat * Float.ofBits 4607182418800017408 :=
    dif_pos ⟨hlt, by norm_num⟩
  have hplace : multiplied (n * unity) (1 * unity) = n * unity := by
    have hscaled := rounded_scaled (a := n * unity) one_pos (le_targetOf _ (-1074)) 1074
    rw [← unity] at hscaled
    rw [multiplied, hunits, Nat.one_mul, hscaled]
    exact settled_count hlt.le
  have hproduct := (at_toFloat hn hlt).mul hone (count_pos hn) (count_lt_top hlt.le)
    (count_pos one_pos) (count_lt_top (by norm_num))
  rwa [hplace, ← hfloat] at hproduct

/-- A larger count is read as a decimal. -/
theorem at_ofNat_of_le {n : Nat} (hle : 2 ^ 53 ≤ n) :
    At (Scalar.ofNat n : Float) (settled (n * unity) 1) := by
  have hpos : n ≠ 0 := (Nat.two_pow_pos 53).trans_le hle |>.ne'
  have hfloat : (Scalar.ofNat n : Float).toModel =
      pack (UnpackedFloat.ofScientific Format.binary64 n 0) := by
    change (Float.ofScientific n false 0).toModel = _
    rw [Float.ofScientific, dif_neg fun h => Nat.not_lt.mpr hle h.1]
    rfl
  have hround : UnpackedFloat.ofScientific Format.binary64 n 0 = roundWithAccuracy Format.binary64
      .positive (n * 2 ^ 53 / 1) (-53) (accuracyOfFraction (n * 2 ^ 53 % 1) 1) := by
    have hlarge : ¬ (0 : Int) > 2 ^ Format.binary64.exponentBits := by decide
    have hsmall : ¬ (0 : Int) < -(2 ^ Format.binary64.exponentBits + (n.log2 : Int)) := by
      have : (0 : Int) ≤ 2 ^ Format.binary64.exponentBits := by decide
      omega
    rw [UnpackedFloat.ofScientific, dif_neg hpos, if_neg hlarge, if_neg hsmall, if_pos le_rfl]
    change roundWithAccuracy Format.binary64 .positive (n <<< 53 * 1) (-53 + 0) .exact = _
    rw [Nat.mul_one, Nat.shiftLeft_eq, add_zero, Nat.div_one, Nat.mod_one]
    rfl
  have hroom : -53 ≤ targetOf (n * 2 ^ 53 / 1) (-53) := by
    rw [Nat.div_one, targetOf, log2_mul_two_pow (Nat.pos_of_ne_zero hpos)]
    omega
  have hscaled : rounded (n * 2 ^ 53) 1 (-53) = rounded (n * unity) 1 (-1074) := by
    have hunits : (-53 : Int) - (1021 : Nat) = -1074 := by norm_num
    rw [← rounded_scaled one_pos hroom 1021, hunits, Nat.mul_assoc, ← pow_add, unity_eq rfl]
  obtain ⟨hnumber, hkey⟩ := key_roundWithAccuracy .positive one_pos hroom
  rw [← hround, ← hfloat] at hnumber hkey
  rw [settled, ← hscaled]
  exact ⟨hnumber, hkey⟩

theorem at_ofNat {n : Nat} (hn : 0 < n) : At (Scalar.ofNat n : Float) (settled (n * unity) 1) := by
  obtain hlt | hle := Nat.lt_or_ge n (2 ^ 53)
  · exact (settled_count hlt.le).symm ▸ at_ofNat_of_lt hn hlt
  · exact at_ofNat_of_le hle

theorem at_count {n : Nat} (hn : 0 < n) (hle : n ≤ 2 ^ 53) :
    At (Scalar.ofNat n : Float) (n * unity) :=
  settled_count hle ▸ at_ofNat hn

theorem at_one : At (Scalar.ofNat 1 : Float) unity := by
  rw [← Nat.one_mul unity]
  exact at_count one_pos (by norm_num)

end TunnelMap.Binary
