import TunnelMap.Proofs.Scalar.Parts
import TunnelMap.Proofs.Scalar.Place

/-! Two counts as parts of their sum in binary floating point with 64 bits. Each part is rounded, and still
they are proper fractions, equal parts are halves, and the two parts make one, as long as the sum has at
most 53 bits. The larger part is off by half a step below one at most, and the smaller one by less, in
finer steps. So the rounded parts fall short of one, or exceed it, by half a step at most, and their sum is
rounded to one, whose mantissa is even. -/

namespace TunnelMap

namespace Binary

/-! ### How far rounding goes -/

/-- How many bits a quotient loses when it is rounded. -/
def lost (a b : Nat) : Nat := (a / b).log2 - 52

theorem rounded_eq (a b : Nat) :
    rounded a b (-1074) = nearest a (b * 2 ^ lost a b) * 2 ^ lost a b := by
  have hshift : (targetOf (a / b) (-1074) - -1074).toNat = lost a b := by
    unfold targetOf lost
    omega
  have hunits : (targetOf (a / b) (-1074) + 1074).toNat = lost a b := by
    unfold targetOf lost
    omega
  rw [rounded, hshift, hunits]

theorem two_pow_lost_dvd (a b : Nat) : 2 ^ lost a b ∣ rounded a b (-1074) :=
  Dvd.intro_left _ (rounded_eq a b).symm

theorem lost_le {a b n : Nat} (h : a < b * 2 ^ (n + 53)) : lost a b ≤ n := by
  have hlt : a / b < 2 ^ (n + 53) := Nat.div_lt_of_lt_mul h
  unfold lost
  obtain hzero | hpos := (a / b).eq_zero_or_pos
  · simp [hzero]
  · have := (Nat.log2_lt hpos.ne').mpr hlt
    omega

theorem le_lost {a b n : Nat} (hb : 0 < b) (h : b * 2 ^ (n + 52) ≤ a) : n ≤ lost a b := by
  have hle : 2 ^ (n + 52) ≤ a / b := (Nat.le_div_iff_mul_le hb).mpr (Nat.mul_comm b _ ▸ h)
  have hlog := (Nat.le_log2 ((Nat.two_pow_pos _).trans_le hle).ne').mpr hle
  unfold lost
  omega

/-- Half a unit is the most that goes to or from the nearest whole number. -/
theorem nearest_error (a : Nat) {b : Nat} (hb : 0 < b) :
    2 * (nearest a b * b) ≤ 2 * a + b ∧ 2 * a ≤ 2 * (nearest a b * b) + b := by
  have hdiv := Nat.div_add_mod' a b
  have hlt := Nat.mod_lt a hb
  unfold nearest
  split_ifs
  · omega
  · obtain h | h := Nat.mod_two_eq_zero_or_one (a / b) <;> rw [h, Nat.add_mul] <;> omega
  · rw [Nat.add_mul]
    omega

theorem rounded_error (a : Nat) {b : Nat} (hb : 0 < b) :
    2 * (rounded a b (-1074) * b) ≤ 2 * a + b * 2 ^ lost a b ∧
      2 * a ≤ 2 * (rounded a b (-1074) * b) + b * 2 ^ lost a b := by
  have hunits : rounded a b (-1074) * b = nearest a (b * 2 ^ lost a b) * (b * 2 ^ lost a b) := by
    rw [rounded_eq, Nat.mul_assoc, Nat.mul_comm b]
  rw [hunits]
  exact nearest_error a (Nat.mul_pos hb (Nat.two_pow_pos _))

/-- A mantissa with too many bits is rounded to 53 of them. -/
theorem rounded_mul_two_pow {m : Nat} (hm : 2 ^ 52 ≤ m) (j : Nat) :
    rounded (m * 2 ^ j) 1 (-1074) = nearest m (2 ^ (m.log2 - 52)) * 2 ^ (m.log2 - 52 + j) := by
  have hpos : 0 < m := (Nat.two_pow_pos 52).trans_le hm
  have hlog : 52 ≤ m.log2 := (Nat.le_log2 hpos.ne').mpr hm
  have hlost : lost (m * 2 ^ j) 1 = m.log2 - 52 + j := by
    rw [lost, Nat.div_one, log2_mul_two_pow hpos, Nat.sub_add_comm hlog]
  rw [rounded_eq, hlost, Nat.one_mul, pow_add, nearest_mul_right _ _ (Nat.two_pow_pos j)]

/-- What is within half a step of a power of two is rounded to it, for its mantissa is even. -/
theorem rounded_near_two_pow {n j : Nat} (hlo : (2 ^ 54 - 1) * 2 ^ j ≤ n)
    (hhi : n ≤ (2 ^ 54 + 1) * 2 ^ j) : rounded n 1 (-1074) = 2 ^ (54 + j) := by
  have hbelow : nearest (2 ^ 54 - 1) (2 ^ ((2 ^ 54 - 1).log2 - 52)) = 2 ^ 53 := by decide
  have habove : nearest (2 ^ 54 + 1) (2 ^ ((2 ^ 54 + 1).log2 - 52)) = 2 ^ 52 := by decide
  refine le_antisymm ?_ ?_
  · calc rounded n 1 (-1074) ≤ rounded ((2 ^ 54 + 1) * 2 ^ j) 1 (-1074) := rounded_mono le_rfl hhi
      _ = 2 ^ 52 * 2 ^ (2 + j) := by
        rw [rounded_mul_two_pow (by norm_num), habove]
        rfl
      _ = 2 ^ (54 + j) := by rw [← pow_add, ← Nat.add_assoc]
  · calc 2 ^ (54 + j) = 2 ^ 53 * 2 ^ (1 + j) := by rw [← pow_add, ← Nat.add_assoc]
      _ = rounded ((2 ^ 54 - 1) * 2 ^ j) 1 (-1074) := by
        rw [rounded_mul_two_pow (by norm_num), hbelow]
        rfl
      _ ≤ rounded n 1 (-1074) := rounded_mono le_rfl hlo

/-! ### Parts -/

section

variable {a b c : Nat}

/-- A proper part is rounded to something between nothing and one. -/
theorem rounded_part (ha : 0 < a) (h : a < c) (hc : c ≤ 2 ^ 53) (j : Nat) :
    0 < rounded (a * 2 ^ (53 + j)) c (-1074) ∧ rounded (a * 2 ^ (53 + j)) c (-1074) < 2 ^ (53 + j) := by
  have hunits (m : Nat) (hm : m ≤ 2 ^ 53) : rounded (m * 2 ^ j * c) c (-1074) = m * 2 ^ j := by
    rw [rounded_mul_self _ (ha.trans h), rounded_of_le hm]
  constructor
  · calc 0 < 1 * 2 ^ j := Nat.mul_pos one_pos (Nat.two_pow_pos j)
      _ = rounded (1 * 2 ^ j * c) c (-1074) := (hunits 1 (by norm_num)).symm
      _ ≤ rounded (a * 2 ^ (53 + j)) c (-1074) := by
        refine rounded_mono le_rfl ?_
        rw [pow_add, ← Nat.mul_assoc, Nat.mul_right_comm]
        exact Nat.mul_le_mul_right _ (by omega)
  · calc rounded (a * 2 ^ (53 + j)) c (-1074) ≤ rounded ((2 ^ 53 - 1) * 2 ^ j * c) c (-1074) := by
          refine rounded_mono le_rfl ?_
          rw [pow_add, ← Nat.mul_assoc, Nat.mul_right_comm (2 ^ 53 - 1)]
          exact Nat.mul_le_mul_right _ (by omega)
      _ = (2 ^ 53 - 1) * 2 ^ j := hunits _ (by norm_num)
      _ < 2 ^ (53 + j) := by
        rw [pow_add]
        exact Nat.mul_lt_mul_of_pos_right (by norm_num) (Nat.two_pow_pos j)

/-- Halves are not rounded. -/
theorem rounded_half (ha : 0 < a) (h : a + a = c) (j : Nat) :
    rounded (a * 2 ^ (54 + j)) c (-1074) = 2 ^ (53 + j) := by
  have hsplit : a * 2 ^ (54 + j) = 1 * 2 ^ (53 + j) * (a + a) := by
    rw [Nat.add_right_comm 53 1 j, pow_succ]
    ring
  rw [← h, hsplit, rounded_mul_self _ (Nat.add_pos_left ha a), rounded_of_le (by norm_num), Nat.one_mul]

theorem double_mul_two_pow (m j : Nat) : m * 2 ^ (54 + j) = 2 * m * 2 ^ (j + 53) := by
  rw [Nat.add_comm, pow_succ, Nat.mul_comm 2 m, Nat.mul_assoc, Nat.mul_comm 2]

theorem lost_lesser (h : 2 * a < c) (j : Nat) : lost (a * 2 ^ (54 + j)) c ≤ j := by
  refine lost_le ?_
  rw [double_mul_two_pow]
  exact Nat.mul_lt_mul_of_pos_right h (Nat.two_pow_pos _)

theorem lost_larger (h : c ≤ 2 * b) (hlt : b < c) (j : Nat) : lost (b * 2 ^ (54 + j)) c = j + 1 := by
  refine le_antisymm (lost_le ?_) (le_lost (Nat.zero_lt_of_lt hlt) ?_)
  · rw [Nat.add_right_comm, Nat.add_comm 54]
    exact Nat.mul_lt_mul_of_pos_right hlt (Nat.two_pow_pos _)
  · rw [double_mul_two_pow, Nat.add_right_comm]
    exact Nat.mul_le_mul_right _ h

/-- Two rounded parts of a whole are off by half a step each at most. -/
theorem rounded_parts_error (ha : 0 < a) (i : Nat) :
    let sum := rounded (a * 2 ^ i) (a + b) (-1074) + rounded (b * 2 ^ i) (a + b) (-1074)
    let steps := 2 ^ lost (a * 2 ^ i) (a + b) + 2 ^ lost (b * 2 ^ i) (a + b)
    2 * sum ≤ 2 * 2 ^ i + steps ∧ 2 * 2 ^ i ≤ 2 * sum + steps := by
  intro sum steps
  have hpos : 0 < a + b := Nat.add_pos_left ha b
  obtain ⟨hle, hge⟩ := rounded_error (a * 2 ^ i) hpos
  obtain ⟨hle', hge'⟩ := rounded_error (b * 2 ^ i) hpos
  constructor
  · refine Nat.le_of_mul_le_mul_right (c := a + b) ?_ hpos
    calc 2 * sum * (a + b) = _ := by rw [Nat.mul_assoc, Nat.add_mul, Nat.mul_add]
      _ ≤ _ := Nat.add_le_add hle hle'
      _ = (2 * 2 ^ i + steps) * (a + b) := by ring
  · refine Nat.le_of_mul_le_mul_right (c := a + b) ?_ hpos
    calc 2 * 2 ^ i * (a + b) = 2 * (a * 2 ^ i) + 2 * (b * 2 ^ i) := by ring
      _ ≤ _ := Nat.add_le_add hge hge'
      _ = (2 * sum + steps) * (a + b) := by ring

/-- The parts make the whole up to half a step below it: the larger part is off by that much at most, and
the steps of the smaller one are finer. -/
theorem rounded_add_rounded (ha : 0 < a) (hab : a < b) (j : Nat) :
    let sum := rounded (a * 2 ^ (54 + j)) (a + b) (-1074) + rounded (b * 2 ^ (54 + j)) (a + b) (-1074)
    (2 ^ 54 - 1) * 2 ^ j ≤ sum ∧ sum ≤ (2 ^ 54 + 1) * 2 ^ j := by
  intro sum
  obtain ⟨hle, hge⟩ := rounded_parts_error (b := b) ha (54 + j)
  have hlost : lost (b * 2 ^ (54 + j)) (a + b) = j + 1 := lost_larger (by omega) (by omega) j
  obtain ⟨d, hd⟩ := Nat.exists_eq_add_of_le (lost_lesser (by omega : 2 * a < a + b) j)
  -- In steps of the smaller part the sum is a whole number, so the error of that part, which is half of
  -- such a step, does not count.
  obtain ⟨n, hn⟩ : 2 ^ lost (a * 2 ^ (54 + j)) (a + b) ∣ sum := by
    refine Nat.dvd_add (two_pow_lost_dvd _ _) (Nat.dvd_trans (Nat.pow_dvd_pow 2 ?_) (two_pow_lost_dvd _ _))
    omega
  rw [hlost] at hle hge
  generalize lost (a * 2 ^ (54 + j)) (a + b) = l at hd hle hge hn
  subst hd
  have hhi : 2 * n ≤ 2 ^ 55 * 2 ^ d + (1 + 2 * 2 ^ d) := by
    refine Nat.le_of_mul_le_mul_left ?_ (Nat.two_pow_pos l)
    calc 2 ^ l * (2 * n) = 2 * sum := by rw [hn, Nat.mul_left_comm]
      _ ≤ _ := hle
      _ = 2 ^ l * (2 ^ 55 * 2 ^ d + (1 + 2 * 2 ^ d)) := by ring
  have hlo : 2 ^ 55 * 2 ^ d ≤ 2 * n + (1 + 2 * 2 ^ d) := by
    refine Nat.le_of_mul_le_mul_left ?_ (Nat.two_pow_pos l)
    calc 2 ^ l * (2 ^ 55 * 2 ^ d) = 2 * 2 ^ (54 + (l + d)) := by ring
      _ ≤ 2 * sum + (2 ^ l + 2 ^ (l + d + 1)) := hge
      _ = 2 ^ l * (2 * n + (1 + 2 * 2 ^ d)) := by rw [hn]; ring
  rw [hn, pow_add, Nat.mul_left_comm, Nat.mul_left_comm (2 ^ 54 + 1)]
  exact ⟨Nat.mul_le_mul_left _ (by omega), Nat.mul_le_mul_left _ (by omega)⟩

/-- The rounded parts of a whole are rounded to the whole when they are put together. -/
theorem rounded_whole (ha : 0 < a) (hb : 0 < b) (j : Nat) :
    rounded (rounded (a * 2 ^ (54 + j)) (a + b) (-1074) + rounded (b * 2 ^ (54 + j)) (a + b) (-1074))
      1 (-1074) = 2 ^ (54 + j) := by
  rcases lt_trichotomy a b with h | rfl | h
  · obtain ⟨hlo, hhi⟩ := rounded_add_rounded ha h j
    exact rounded_near_two_pow hlo hhi
  · have hwhole : 2 ^ (53 + j) + 2 ^ (53 + j) = 1 * 2 ^ (54 + j) := by
      rw [Nat.one_mul, ← Nat.two_mul, ← pow_succ', Nat.add_right_comm]
    rw [rounded_half ha rfl, hwhole, rounded_of_le (by norm_num), Nat.one_mul]
  · rw [Nat.add_comm a b, Nat.add_comm (rounded _ _ _)]
    obtain ⟨hlo, hhi⟩ := rounded_add_rounded hb h j
    exact rounded_near_two_pow hlo hhi

/-! ### Counts -/

/-- However large counts are, they and their sums are above nothing. -/
theorem counting : Scalar.Counting Float where
  pos_iff n := by
    obtain rfl | hn := n.eq_zero_or_pos
    · exact at_zero.lt_iff at_zero
    · exact iff_of_true ((at_zero.lt_iff (at_ofNat hn)).mpr (settled_pos (count_pos hn))) hn
  add_pos a b ha hb := by
    have hsum := (at_ofNat ha).add (at_ofNat hb) (settled_pos (count_pos ha)) (settled_pos (count_pos hb))
    exact (at_zero.lt_iff hsum).mpr (settled_pos (Nat.add_pos_left (settled_pos (count_pos ha)) _))

theorem rounded_part_mem (ha : 0 < a) (h : a < c) (hc : c ≤ 2 ^ 53) :
    0 < rounded (a * unity) c (-1074) ∧ rounded (a * unity) c (-1074) < unity := by
  rw [unity_eq (n := 53 + 1021) rfl]
  exact rounded_part ha h hc 1021

theorem settled_part (ha : 0 < a) (h : a < c) (hc : c ≤ 2 ^ 53) :
    settled (a * unity) c = rounded (a * unity) c (-1074) :=
  Nat.min_eq_left ((rounded_part_mem ha h hc).2.trans unity_lt_top).le

/-- A part of counts that keep all their bits is rounded once. -/
theorem at_part (ha : 0 < a) (hb : 0 < b) (h : a + b ≤ 2 ^ 53) :
    At (Scalar.part a b : Float) (rounded (a * unity) (a + b) (-1074)) := by
  have hcount {n : Nat} (hn : 0 < n) (hle : n ≤ a + b) : At (Scalar.ofNat n : Float) (n * unity) :=
    at_count hn (hle.trans h)
  have hsum : At (Scalar.ofNat a + Scalar.ofNat b : Float) ((a + b) * unity) := by
    have hadd := (hcount ha (Nat.le_add_right a b)).add (hcount hb (Nat.le_add_left b a)) (count_pos ha)
      (count_pos hb)
    rwa [← Nat.add_mul, settled_count h] at hadd
  have hdiv := (hcount ha (Nat.le_add_right a b)).div hsum (count_pos ha)
    (count_lt_top ((Nat.le_add_right a b).trans h)) (count_pos (Nat.add_pos_left ha b)) (count_lt_top h)
  rwa [settled_mul_right _ _ unity_pos, settled_part ha (Nat.lt_add_of_pos_right hb) h] at hdiv

theorem part_self (ha : 0 < a) (h : a + a ≤ 2 ^ 53) :
    (Scalar.part a a : Float) = Scalar.ofNat 1 / Scalar.ofNat 2 := by
  have hunity := unity_eq (n := 54 + 1020) rfl
  have hpart := at_part ha ha h
  have hhalf := (at_count Nat.one_pos (by norm_num)).div (at_count Nat.two_pos (by norm_num))
    (count_pos Nat.one_pos) (count_lt_top (by norm_num)) (count_pos Nat.two_pos)
    (count_lt_top (by norm_num))
  rw [settled_mul_right _ _ unity_pos, settled_part Nat.one_pos Nat.one_lt_two (by norm_num)] at hhalf
  have hsame : rounded (a * unity) (a + a) (-1074) = rounded (1 * unity) 2 (-1074) := by
    rw [hunity, rounded_half ha rfl, rounded_half Nat.one_pos rfl]
  obtain ⟨hpos, hlt⟩ := rounded_part_mem ha (Nat.lt_add_of_pos_right ha) h
  rw [hsame] at hpart hpos hlt
  exact hpart.eq hhalf hpos (hlt.trans unity_lt_top)

theorem part_add_part (ha : 0 < a) (hb : 0 < b) (h : a + b ≤ 2 ^ 53) :
    (Scalar.part a b + Scalar.part b a : Float) = Scalar.ofNat 1 := by
  have hunity := unity_eq (n := 54 + 1020) rfl
  have hpart := at_part hb ha (Nat.add_comm a b ▸ h)
  rw [Nat.add_comm b a] at hpart
  have hsum := (at_part ha hb h).add hpart (rounded_part_mem ha (Nat.lt_add_of_pos_right hb) h).1
    (rounded_part_mem hb (Nat.lt_add_of_pos_left ha) h).1
  rw [settled, hunity, rounded_whole ha hb, ← hunity, Nat.min_eq_left unity_lt_top.le] at hsum
  exact hsum.eq at_one unity_pos unity_lt_top

theorem parts (ha : 0 < a) (hb : 0 < b) (h : a + b ≤ 2 ^ 53) : Scalar.Parts Float a b := by
  obtain ⟨hpos, hlt⟩ := rounded_part_mem ha (Nat.lt_add_of_pos_right hb) h
  have hpart := at_part ha hb h
  constructor
  · exact counting.add_pos a b ha hb
  · exact (at_zero.lt_iff hpart).mpr hpos
  · exact (hpart.lt_iff at_one).mpr hlt
  · rintro rfl
    exact part_self ha h
  · exact part_add_part ha hb h

end

end Binary

end TunnelMap
