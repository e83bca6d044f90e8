import TunnelMap.Proofs.View.Exact

/-! Two counts as parts of their sum. What is asked of an arithmetic is that counts are above nothing, that
the parts are proper fractions, that equal parts are halves, and that the two parts make one. Exact
arithmetic does as it is asked. -/

namespace TunnelMap

namespace Scalar

/-- The first of two counts as a part of both. -/
def part {R : Type} [Scalar R] (a b : Nat) : R := ofNat a / (ofNat a + ofNat b)

/-- Two counts are parts of a whole: proper fractions, which are halves when they are equal, and which make
one together. -/
structure Parts (R : Type) [Scalar R] (a b : Nat) : Prop where
  whole_pos : (0 : R) < ofNat a + ofNat b
  pos : (0 : R) < part a b
  lt_one : (part a b : R) < 1
  halves : a = b → (part a b : R) = 1 / 2
  add : (part a b + part b a : R) = 1

/-- Counts are above nothing unless they are none, and sums of two that are above nothing are so as well. -/
structure Counting (R : Type) [Scalar R] : Prop where
  pos_iff : ∀ n, (0 : R) < ofNat n ↔ 0 < n
  add_pos : ∀ a b, 0 < a → 0 < b → (0 : R) < ofNat a + ofNat b

theorem counting_real : Counting ℝ where
  pos_iff n := by
    rw [zero_real]
    exact Nat.cast_pos
  add_pos a b ha hb := by
    rw [zero_real]
    exact add_pos (Nat.cast_pos.mpr ha) (Nat.cast_pos.mpr hb)

theorem parts_real {a b : Nat} (ha : 0 < a) (hb : 0 < b) : Parts ℝ a b := by
  have ha' : (0 : ℝ) < a := Nat.cast_pos.mpr ha
  have hb' : (0 : ℝ) < b := Nat.cast_pos.mpr hb
  have hsum : (0 : ℝ) < a + b := add_pos ha' hb'
  constructor
  · exact counting_real.add_pos a b ha hb
  · rw [zero_real]
    exact div_pos ha' hsum
  · rw [one_real]
    exact (div_lt_one hsum).mpr (lt_add_of_pos_right _ hb')
  · rintro rfl
    rw [one_real, two_real]
    change (a : ℝ) / (a + a) = 1 / 2
    rw [div_eq_div_iff hsum.ne' two_ne_zero]
    ring
  · rw [one_real]
    change (a : ℝ) / (a + b) + b / (b + a) = 1
    rw [add_comm (b : ℝ) a, ← add_div, div_self hsum.ne']

end Scalar

end TunnelMap
