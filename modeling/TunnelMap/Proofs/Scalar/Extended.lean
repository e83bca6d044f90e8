import Mathlib.Analysis.SpecialFunctions.Log.ENNRealLog
import TunnelMap.Proofs.View.Exact

/-! Exact arithmetic with infinite bounds: the extended real numbers. The bound that no number exceeds is
the greatest of them, and it stays so in every unit. The logarithm is left open: what is said of all of
them holds however it is computed. -/

namespace TunnelMap

/-- A logarithm. No law is asked for. -/
class NaturalLog where
  ln : EReal → EReal

/-- The logarithm of the positive numbers; nothing is below that of the others. -/
@[reducible]
noncomputable def NaturalLog.standard : NaturalLog := ⟨fun x => ENNReal.log x.toENNReal⟩

theorem NaturalLog.standard_monotone : Monotone standard.ln :=
  fun _ _ h => ENNReal.log_monotone (EReal.toENNReal_le_toENNReal h)

/-- A function of numbers that keeps the two infinite ones. -/
noncomputable def Scalar.extend (f : ℝ → ℝ) : EReal → EReal
  | ⊥ => ⊥
  | ⊤ => ⊤
  | (x : ℝ) => (f x : ℝ)

noncomputable instance [NaturalLog] : Scalar EReal where
  decidableLT := inferInstance
  decidableLE := inferInstance
  ofNat n := n
  ofDecimal m shrink e := (Scalar.ofDecimal m shrink e : ℝ)
  sqrt := Scalar.extend Scalar.sqrt
  cos x := (Scalar.cos x.toReal : ℝ)
  sin x := (Scalar.sin x.toReal : ℝ)
  ln := NaturalLog.ln
  floor := Scalar.extend Scalar.floor
  pi := (Scalar.pi : ℝ)
  ln2 := (Scalar.ln2 : ℝ)
  infinity := ⊤
  toWord x := if x = ⊤ then .ofNat (2 ^ 32 - 1) else Scalar.toWord x.toReal

namespace Scalar

variable [NaturalLog]

theorem clamp_extended {lo hi : EReal} (h : lo ≤ hi) (x : EReal) :
    clamp lo hi x = Max.max lo (Min.min hi x) :=
  held_eq_max_min h x

theorem zero_extended : @OfNat.ofNat EReal 0 (Scalar.instOfNat 0) = 0 := Nat.cast_zero

theorem one_extended : @OfNat.ofNat EReal 1 (Scalar.instOfNat 1) = 1 := Nat.cast_one

end Scalar

end TunnelMap
