import Mathlib
import TunnelMap.Proofs.Layout.Bounds
import TunnelMap.Proofs.View.Cooling
import TunnelMap.Proofs.View.Exact

/-! How a layout comes to rest, in exact arithmetic. Only an effective step and a reheating touch the heat.
A step leaves the same share of it whatever the forces did, so after a reheating the heat is a power of
that share, and it falls below the threshold after a number of steps that the two numbers of the cooling
determine. From then on a step finds the layout at rest and leaves it as it is. A layout that was never
heated is at rest from the beginning. -/

namespace TunnelMap.Layout

variable {R S : Type}

/-- What is done to the layout of a graph. -/
inductive Act (R S : Type) where
  | tick (dt : S)
  | pin (i : NodeIdx) (p : Point R)
  | order (o : Order R)
  | carryOver (previousGraph : Graph) (previous : Layout R S)

namespace Act

def Reheats : Act R S → Prop
  | .order .reheat => True
  | _ => False

def isTick : Act R S → Bool
  | .tick _ => true
  | _ => false

theorem exists_tick {a : Act R S} (h : a.isTick = true) : ∃ dt, a = .tick dt := by
  cases a with
  | tick dt => exact ⟨dt, rfl⟩
  | _ => cases h

end Act

section

variable [Scalar R] [Engine S] [Precision R S] (g : Graph)

def act (l : Layout R S) : Act R S → Layout R S
  | .tick dt => (l.advance dt).2
  | .pin i p => l.pin i p
  | .order o => l.obey o
  | .carryOver previousGraph previous => (l.carryOver g previousGraph previous).1

def run (l : Layout R S) (as : List (Act R S)) : Layout R S := as.foldl (act g) l

/-- What the ticks of a run answer. -/
def answers (l : Layout R S) : List (Act R S) → List Bool
  | [] => []
  | .tick dt :: as => (l.advance dt).1 :: answers (l.advance dt).2 as
  | a :: as => answers (l.act g a) as

variable {g} {l : Layout R S}

theorem advance_eq (l : Layout R S) (dt : S) : l.advance dt = (l.isRunning, l.tick dt) := by
  unfold advance tick
  split_ifs with h
  · rw [h]
  · rw [Bool.eq_false_iff.mpr h]

@[simp] theorem cooling_act (l : Layout R S) (a : Act R S) : (l.act g a).cooling = l.cooling := by
  cases a with
  | tick dt => rw [act, advance_eq, cooling_tick]
  | pin i p => exact l.cooling_pin i p
  | order o => exact l.cooling_obey o
  | carryOver previousGraph previous => rfl

/-- Only ticks and reheatings touch the heat. -/
theorem alpha_act {a : Act R S} (ha : ¬ a.Reheats) (ht : a.isTick = false) (l : Layout R S) :
    (l.act g a).alpha = l.alpha := by
  cases a with
  | tick dt => exact absurd ht (by simp [Act.isTick])
  | pin i p =>
    simp only [act, pin]
    split_ifs <;> rfl
  | order o =>
    cases o with
    | reheat => exact (ha trivial).elim
    | _ => rfl
  | carryOver previousGraph previous => rfl

theorem answers_of_not_tick {a : Act R S} (ht : a.isTick = false) (l : Layout R S)
    (as : List (Act R S)) : l.answers g (a :: as) = (l.act g a).answers g as := by
  cases a with
  | tick dt => exact absurd ht (by simp [Act.isTick])
  | _ => rfl

theorem advance_of_running (h : l.isRunning) (dt : S) : (l.advance dt).1 = true ∧
    (l.advance dt).2.alpha = l.alpha - l.alpha * l.alphaDecay := by
  rw [advance, if_pos h]
  exact ⟨rfl, rfl⟩

theorem advance_of_resting (h : ¬ l.isRunning) (dt : S) : l.advance dt = (false, l) := if_neg h

theorem Fits.act (h : l.Fits g) (a : Act R S) : (l.act g a).Fits g := by
  cases a with
  | tick dt =>
    rw [Layout.act, advance_eq]
    exact h.tick dt
  | pin i p => exact h.pin i p
  | order o => exact h.obey o
  | carryOver previousGraph previous => exact h.carryOver previousGraph previous

theorem Fits.run (h : l.Fits g) (as : List (Act R S)) : (l.run g as).Fits g := by
  induction as generalizing l with
  | nil => exact h
  | cons a as ih => exact ih (h.act a)

theorem cooling_run (l : Layout R S) (as : List (Act R S)) : (l.run g as).cooling = l.cooling := by
  induction as generalizing l with
  | nil => rfl
  | cons a as ih => exact (ih (l.act g a)).trans (l.cooling_act a)

theorem act_of_resting {a : Act R S} (ha : ¬ a.Reheats) (h : ¬ l.isRunning) :
    ¬ (l.act g a).isRunning := by
  cases ht : a.isTick with
  | true =>
    obtain ⟨dt, rfl⟩ := Act.exists_tick ht
    rwa [act, advance_of_resting h]
  | false =>
    have hrest : (l.act g a).alphaMin = l.alphaMin := congrArg Cooling.rest (l.cooling_act a)
    rwa [isRunning, hrest, alpha_act ha ht]

/-- What rests stays at rest until it is heated. -/
theorem run_of_resting {as : List (Act R S)} (has : ∀ a ∈ as, ¬ a.Reheats) (h : ¬ l.isRunning) :
    ¬ (l.run g as).isRunning := by
  induction as generalizing l with
  | nil => exact h
  | cons a as ih =>
    obtain ⟨ha, has⟩ := List.forall_mem_cons.mp has
    exact ih has (act_of_resting ha h)

end

/-! ### The time that the heat lasts -/

/-- After how many steps a heated layout is at rest, by the share of the heat that a step takes and the
heat below which it rests. -/
noncomputable def lifetime (decay rest : ℝ) : ℕ := sInf {n | (1 - decay) ^ n < rest}

section

variable {decay rest : ℝ} (hdecay : 0 < decay) (hdecay' : decay ≤ 1) (hrest : 0 < rest)

include hdecay hdecay' hrest

theorem lt_lifetime_iff {n : ℕ} : n < lifetime decay rest ↔ rest ≤ (1 - decay) ^ n := by
  have hshare : 0 ≤ 1 - decay ∧ 1 - decay < 1 := ⟨by linarith, by linarith⟩
  constructor
  · intro h
    exact not_lt.mp (Nat.notMem_of_lt_sInf h)
  · intro h
    have hne : {n | (1 - decay) ^ n < rest}.Nonempty := exists_pow_lt_of_lt_one hrest hshare.2
    by_contra hle
    have hpow : (1 - decay) ^ n ≤ (1 - decay) ^ lifetime decay rest :=
      pow_le_pow_of_le_one hshare.1 hshare.2.le (not_lt.mp hle)
    exact absurd (hpow.trans_lt (Nat.sInf_mem hne)) (not_lt.mpr h)

end

/-- What `ticks` ticks are answered while there is heat for `left` of them. -/
def yesThenNo (left ticks : ℕ) : List Bool :=
  List.replicate (min ticks left) true ++ List.replicate (ticks - left) false

theorem yesThenNo_succ (left ticks : ℕ) :
    yesThenNo (left + 1) (ticks + 1) = true :: yesThenNo left ticks := by
  simp [yesThenNo, Nat.add_min_add_right, List.replicate_succ]

theorem count_yesThenNo (left ticks : ℕ) : (yesThenNo left ticks).count true = min ticks left := by
  simp [yesThenNo, List.count_replicate]

/-! ### Cooling down -/

variable [Engine S] [Precision ℝ S] {g : Graph} {decay rest : ℝ} {n : ℕ} {l : Layout ℝ S}

/-- A layout that has taken `n` steps from full heat. -/
structure Cooled (decay rest : ℝ) (n : ℕ) (l : Layout ℝ S) : Prop where
  decay_eq : l.alphaDecay = decay
  rest_eq : l.alphaMin = rest
  alpha_eq : l.alpha = (1 - decay) ^ n

omit [Engine S] [Precision ℝ S] in
theorem cooled_reheat (l : Layout ℝ S) : Cooled l.alphaDecay l.alphaMin 0 (l.obey .reheat) where
  decay_eq := rfl
  rest_eq := rfl
  alpha_eq := Nat.cast_one.trans (pow_zero _).symm

namespace Cooled

variable (h : Cooled decay rest n l)

include h

theorem act {a : Act ℝ S} (ha : ¬ a.Reheats) (ht : a.isTick = false) :
    Cooled decay rest n (l.act g a) where
  decay_eq := (congrArg Cooling.decay (l.cooling_act a)).trans h.decay_eq
  rest_eq := (congrArg Cooling.rest (l.cooling_act a)).trans h.rest_eq
  alpha_eq := (alpha_act ha ht l).trans h.alpha_eq

theorem advance (hrun : l.isRunning) (dt : S) : Cooled decay rest (n + 1) (l.advance dt).2 where
  decay_eq := by
    rw [advance_eq]
    exact (congrArg Cooling.decay (l.cooling_tick dt)).trans h.decay_eq
  rest_eq := by
    rw [advance_eq]
    exact (congrArg Cooling.rest (l.cooling_tick dt)).trans h.rest_eq
  alpha_eq := by
    rw [(advance_of_running hrun dt).2, h.alpha_eq, h.decay_eq]
    ring

variable (hdecay : 0 < decay) (hdecay' : decay ≤ 1) (hrest : 0 < rest)

include hdecay hdecay' hrest

omit [Engine S] [Precision ℝ S] in
theorem isRunning_iff : l.isRunning ↔ n < lifetime decay rest := by
  rw [lt_lifetime_iff hdecay hdecay' hrest, ← h.alpha_eq, ← h.rest_eq, isRunning, decide_eq_true_iff]

/-- The ticks of a run are answered with yes until the heat is used up, and then with no. -/
theorem run {left : ℕ} (hleft : n + left = lifetime decay rest) {as : List (Act ℝ S)}
    (has : ∀ a ∈ as, ¬ a.Reheats) : l.answers g as = yesThenNo left (as.countP Act.isTick) ∧
      Cooled decay rest (n + min (as.countP Act.isTick) left) (l.run g as) := by
  induction as generalizing l n left with
  | nil => simpa [answers, yesThenNo, Layout.run] using h
  | cons a as ih =>
    obtain ⟨ha, has'⟩ := List.forall_mem_cons.mp has
    cases ht : a.isTick with
    | false =>
      rw [List.countP_cons_of_neg (by rw [ht]; exact Bool.false_ne_true), answers_of_not_tick ht]
      exact ih (h.act ha ht) hleft has'
    | true =>
      obtain ⟨dt, rfl⟩ := Act.exists_tick ht
      have hrun := h.isRunning_iff hdecay hdecay' hrest
      rw [List.countP_cons_of_pos ht]
      cases left with
      | zero =>
        have hresting : ¬ l.isRunning := mt hrun.mp (by omega)
        obtain ⟨hanswers, hcooled⟩ := ih h hleft has'
        have hstill : l.act g (.tick dt) = l := congrArg Prod.snd (advance_of_resting hresting dt)
        have hafter : l.run g (.tick dt :: as) = l.run g as := congrArg (Layout.run g · as) hstill
        rw [answers, advance_of_resting hresting, hanswers, hafter, Nat.min_zero]
        exact ⟨by simp [yesThenNo, List.replicate_succ], by simpa using hcooled⟩
      | succ left =>
        have hrunning : l.isRunning := hrun.mpr (by omega)
        have hleft' : n + 1 + left = lifetime decay rest := by omega
        obtain ⟨hanswers, hcooled⟩ := ih (h.advance hrunning dt) hleft' has'
        rw [answers, (advance_of_running hrunning dt).1, hanswers, yesThenNo_succ,
          Nat.add_min_add_right, ← Nat.add_assoc, Nat.add_right_comm]
        exact ⟨rfl, hcooled⟩

end Cooled

/-! ### Coming to rest -/

/-- What acts come to on a layout that is at full heat and cools by a tuning. -/
structure ComesToRest (g : Graph) (t : Tuning ℝ) (l : Layout ℝ S) (as : List (Act ℝ S)) : Prop where
  alpha_eq : (l.run g as).alpha = (1 - t.alphaDecay) ^ (l.answers g as).count true
  alpha_mem : (l.run g as).alpha ∈ Set.Icc 0 1
  answers_eq : l.answers g as =
    yesThenNo (lifetime t.alphaDecay t.alphaMin) (as.countP Act.isTick)
  advances_iff : ∀ dt, ((l.run g as).advance dt).1 = true ↔ t.alphaMin ≤ (l.run g as).alpha
  stays : ∀ dt, ((l.run g as).advance dt).1 = false → ((l.run g as).advance dt).2 = l.run g as

variable {t : Tuning ℝ} (hdecay : 0 < t.alphaDecay) (hdecay' : t.alphaDecay ≤ 1)
  (hrest : 0 < t.alphaMin)

include hdecay hdecay' hrest

theorem Cooled.comesToRest (h : Cooled t.alphaDecay t.alphaMin 0 l) {as : List (Act ℝ S)}
    (has : ∀ a ∈ as, ¬ a.Reheats) : l.ComesToRest g t as := by
  obtain ⟨hanswers, hcooled⟩ := h.run (g := g) hdecay hdecay' hrest (Nat.zero_add _) has
  rw [Nat.zero_add] at hcooled
  have hshare : 0 ≤ 1 - t.alphaDecay ∧ 1 - t.alphaDecay ≤ 1 := ⟨by linarith, by linarith⟩
  refine ⟨?_, ?_, hanswers, fun dt => ?_, fun dt hno => ?_⟩
  · rw [hanswers, count_yesThenNo]
    exact hcooled.alpha_eq
  · rw [hcooled.alpha_eq]
    exact ⟨pow_nonneg hshare.1 _, pow_le_one₀ hshare.1 hshare.2⟩
  · rw [advance_eq, isRunning, decide_eq_true_iff, hcooled.rest_eq]
  · rw [advance_eq] at hno
    rw [advance_of_resting (Bool.eq_false_iff.mp hno)]

/-- A layout that is laid out from a graph is at rest until it is heated, and goes on cooling as it was
laid out to, whatever is done to it. From a reheating on, in whatever state that finds it, its heat is a
power of the share that a step leaves, and its ticks are answered with yes as often as the two numbers of
the cooling have it and then with no. A tick that is answered with no changes nothing. -/
theorem comes_to_rest (hrest' : t.alphaMin ≤ 1) (g : Graph) :
    let start : Layout ℝ S := ofGraph g t
    (∀ as : List (Act ℝ S), (∀ a ∈ as, ¬ a.Reheats) → ∀ dt,
      (start.run g as).advance dt = (false, start.run g as)) ∧
    (∀ as, (start.run g as).alphaDecay = t.alphaDecay ∧ (start.run g as).alphaMin = t.alphaMin ∧
      (g.Sound → ∀ dt, (start.run g as).tick? dt = some ((start.run g as).advance dt).2)) ∧
    (∀ l : Layout ℝ S, l.alphaDecay = t.alphaDecay → l.alphaMin = t.alphaMin →
      ∀ as : List (Act ℝ S), (∀ a ∈ as, ¬ a.Reheats) → (l.obey .reheat).ComesToRest g t as) ∧
    0 < lifetime t.alphaDecay t.alphaMin := by
  intro start
  have hcold : ¬ start.isRunning := by
    rw [isRunning, decide_eq_true_iff, not_le]
    exact Nat.cast_zero.trans_lt hrest
  refine ⟨fun as has dt => ?_, fun as => ⟨?_, ?_, fun hg dt => ?_⟩, fun l hl hl' as has => ?_, ?_⟩
  · exact advance_of_resting (run_of_resting has hcold) dt
  · exact congrArg Cooling.decay (start.cooling_run as)
  · exact congrArg Cooling.rest (start.cooling_run as)
  · have hfits : (start.run g as).Fits g := (fits_ofGraph g t).run as
    rw [advance_eq]
    exact hfits.staffed.tick?_eq (hfits.tied hg) dt
  · exact Cooled.comesToRest hdecay hdecay' hrest (hl ▸ hl' ▸ cooled_reheat l) has
  · rw [lt_lifetime_iff hdecay hdecay' hrest, pow_zero]
    exact hrest'

omit hdecay hdecay' hrest in
/-- Half of the heat goes at each step, and a quarter of it is enough. -/
theorem lifetime_half : lifetime (1 / 2) (1 / 4) = 3 := by
  have hlt {n : ℕ} : n < lifetime (1 / 2) (1 / 4) ↔ 1 / 4 ≤ (1 - 1 / 2 : ℝ) ^ n :=
    lt_lifetime_iff (by norm_num) (by norm_num) (by norm_num)
  have htwo : 2 < lifetime (1 / 2) (1 / 4) := hlt.mpr (by norm_num)
  have hthree : ¬ 3 < lifetime (1 / 2) (1 / 4) := mt hlt.mp (by norm_num)
  omega

omit hdecay hdecay' hrest in
/-- The layout of one node is heated, ticks three times while its node is pinned and its charge is changed,
and is found at rest by the fourth tick. -/
theorem comes_to_rest_after_three : ∃ (g : Graph) (t : Tuning ℝ) (l : Layout ℝ ℝ)
    (as : List (Act ℝ ℝ)), t.alphaDecay = 1 / 2 ∧ t.alphaMin = 1 / 4 ∧ l = ofGraph g t ∧
      l.advance 1 = (false, l) ∧ (l.obey .reheat).answers g as = [true, true, true, false] ∧
      ((l.obey .reheat).run g as).alpha = 1 / 8 := by
  let e : NodeEntry := ⟨⟨"a"⟩, .interface, {}⟩
  let g : Graph := .ofParts [e.node] []
  let t : Tuning ℝ := { Tuning.standard with alphaDecay := 1 / 2, alphaMin := 1 / 4 }
  let as : List (Act ℝ ℝ) :=
    [.tick 1, .pin 0 ⟨5, 0⟩, .tick 1, .order (.setCharge 0 2), .tick 1, .tick 1]
  have has : ∀ a ∈ as, ¬ a.Reheats := by simp [as, Act.Reheats]
  have hdecay : t.alphaDecay = 1 / 2 := rfl
  have hmin : t.alphaMin = 1 / 4 := rfl
  obtain ⟨hidle, -, hrests, -⟩ := comes_to_rest (S := ℝ) (t := t) (by rw [hdecay]; norm_num)
    (by rw [hdecay]; norm_num) (by rw [hmin]; norm_num) (by rw [hmin]; norm_num) g
  have h := hrests (ofGraph g t) rfl rfl as has
  have hanswers : ((ofGraph g t : Layout ℝ ℝ).obey .reheat).answers g as =
      [true, true, true, false] := by
    rw [h.answers_eq, hdecay, hmin, lifetime_half]
    rfl
  refine ⟨g, t, ofGraph g t, as, hdecay, hmin, rfl, hidle [] (by simp) 1, hanswers, ?_⟩
  rw [h.alpha_eq, hanswers, hdecay]
  norm_num

end TunnelMap.Layout
