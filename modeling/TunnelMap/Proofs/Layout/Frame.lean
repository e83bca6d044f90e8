import Mathlib.Tactic.SplitIfs
import TunnelMap.Layout.Basic

/-! What each change of a layout leaves as it was. Orders touch links, charges and heat, a step
touches bodies, positions and heat, and a pin touches one node. None of them touches the share of
the heat that a step takes, the heat below which a layout rests, or the damping: a layout keeps
these from where it was laid out. -/

namespace TunnelMap.Layout

variable {R S : Type} [Scalar R] [Engine S] [Precision R S]

/-! ### Orders -/

omit [Engine S] [Precision R S] in
theorem obey_eq (l : Layout R S) (o : Order R) :
    ∃ links charges alpha, l.obey o = { l with links, charges, alpha } := by
  cases o with
  | setLink i params => exact ⟨_, l.charges, l.alpha, rfl⟩
  | setCharge i c => exact ⟨l.links, _, l.alpha, rfl⟩
  | reheat => exact ⟨l.links, l.charges, _, rfl⟩

omit [Engine S] [Precision R S] in
theorem foldl_obey_eq (l : Layout R S) (os : List (Order R)) :
    ∃ links charges alpha, os.foldl obey l = { l with links, charges, alpha } := by
  induction os generalizing l with
  | nil => exact ⟨l.links, l.charges, l.alpha, rfl⟩
  | cons o os ih =>
    obtain ⟨links, charges, alpha, ho⟩ := l.obey_eq o
    obtain ⟨links', charges', alpha', hos⟩ := ih (l.obey o)
    exact ⟨links', charges', alpha', by rw [List.foldl_cons, hos, ho]⟩

omit [Engine S] [Precision R S] in
/-- Tuning heats a layout to the full, whatever there is to tune. -/
theorem tune_eq (l : Layout R S) (t : Tuning R) (g : Graph) :
    ∃ links charges, l.tune t g = { l with links, charges, alpha := 1 } := by
  rw [tune, Tuning.orders, ← List.append_assoc, List.foldl_append]
  obtain ⟨links, charges, alpha, h⟩ := l.foldl_obey_eq _
  exact ⟨links, charges, by rw [h]; rfl⟩

omit [Engine S] [Precision R S] in
theorem isRunning_tune (l : Layout R S) (t : Tuning R) (g : Graph) :
    (l.tune t g).isRunning ↔ l.alphaMin ≤ 1 := by
  obtain ⟨links, charges, h⟩ := l.tune_eq t g
  rw [h, isRunning, decide_eq_true_iff]

omit [Engine S] [Precision R S] in
theorem tune_places (l : Layout R S) (t : Tuning R) (g : Graph) :
    (l.tune t g).positions = l.positions ∧ (l.tune t g).pinned = l.pinned := by
  obtain ⟨links, charges, h⟩ := l.tune_eq t g
  rw [h]
  exact ⟨rfl, rfl⟩

/-! ### Steps -/

theorem tick_eq (l : Layout R S) (dt : S) :
    ∃ bodies positions alpha, l.tick dt = { l with bodies, positions, alpha } := by
  unfold tick
  split_ifs
  · exact ⟨_, _, _, rfl⟩
  · exact ⟨l.bodies, l.positions, l.alpha, rfl⟩

end TunnelMap.Layout
