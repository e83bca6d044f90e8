import TunnelMap.View.Basic

/-! Runs of anything that goes on step by step and may break off. What a run tells and says is what its
steps tell and say, in their order. -/

namespace TunnelMap.Outcome

variable {α ι : Type} (step : α → ι → Option (Outcome α))

/-- Goes on with a step; what it tells and says comes after all before. -/
def goOn? (o : Outcome α) (i : ι) : Option (Outcome α) :=
  (step o.value i).map fun next => ⟨next.value, o.events ++ next.events, o.notices ++ next.notices⟩

/-- Goes on with steps in turn. -/
def goAll? (o : Outcome α) (is : List ι) : Option (Outcome α) := is.foldlM (goOn? step) o

variable {step}

theorem goOn?_eq_some {o r : Outcome α} {i : ι} : o.goOn? step i = some r ↔
    ∃ next, step o.value i = some next ∧
      r = ⟨next.value, o.events ++ next.events, o.notices ++ next.notices⟩ := by
  rw [goOn?, Option.map_eq_some_iff]
  exact exists_congr fun _ => and_congr_right fun _ => eq_comm

@[simp] theorem goAll?_nil (o : Outcome α) : o.goAll? step [] = some o := rfl

theorem goAll?_cons {o r : Outcome α} {i : ι} {is : List ι} : o.goAll? step (i :: is) = some r ↔
    ∃ m, o.goOn? step i = some m ∧ m.goAll? step is = some r := by
  simp [goAll?, List.foldlM_cons, Option.bind_eq_some_iff]

theorem goAll?_concat {o r : Outcome α} {i : ι} {is : List ι} :
    o.goAll? step (is ++ [i]) = some r ↔
      ∃ m, o.goAll? step is = some m ∧ m.goOn? step i = some r := by
  simp [goAll?, List.foldlM_append, Option.bind_eq_some_iff]

/-- What holds at the start of a run and is kept by each step holds at its end. -/
theorem goAll?_induct {P : Outcome α → Prop} {is : List ι}
    (keep : ∀ o i r, P o → i ∈ is → o.goOn? step i = some r → P r) {o r : Outcome α} (ho : P o)
    (h : o.goAll? step is = some r) : P r := by
  induction is generalizing o with
  | nil =>
    obtain rfl : o = r := by simpa using h
    exact ho
  | cons i is ih =>
    obtain ⟨m, hm, hr⟩ := goAll?_cons.mp h
    exact ih (fun o' i' r' hp hi => keep o' i' r' hp (List.mem_cons_of_mem _ hi))
      (keep o i m ho List.mem_cons_self hm) hr

/-- The same of what is about the value alone. -/
theorem goAll?_keeps {P : α → Prop} {is : List ι}
    (keep : ∀ (a : α) (i : ι) (next : Outcome α), P a → i ∈ is → step a i = some next → P next.value)
    {o r : Outcome α} (ho : P o.value) (h : o.goAll? step is = some r) : P r.value := by
  refine goAll?_induct (P := fun m => P m.value) (fun m i next hm hmem hnext => ?_) ho h
  obtain ⟨u, hu, rfl⟩ := goOn?_eq_some.mp hnext
  exact keep m.value i u hm hmem hu

/-- A run in which no step breaks off has an end. -/
theorem exists_goAll? {P : α → Prop} {is : List ι}
    (go : ∀ (a : α) (i : ι), P a → i ∈ is → ∃ next, step a i = some next ∧ P next.value)
    {o : Outcome α} (ho : P o.value) : ∃ r, o.goAll? step is = some r := by
  induction is generalizing o with
  | nil => exact ⟨o, rfl⟩
  | cons i is ih =>
    obtain ⟨next, hnext, hp⟩ := go o.value i ho List.mem_cons_self
    obtain ⟨r, hr⟩ := ih (fun a i' ha hi => go a i' ha (List.mem_cons_of_mem _ hi))
      (o := ⟨next.value, o.events ++ next.events, o.notices ++ next.notices⟩) hp
    exact ⟨r, goAll?_cons.mpr ⟨_, goOn?_eq_some.mpr ⟨next, hnext, rfl⟩, hr⟩⟩

/-- Runs go alike if their steps do, as long as something holds that the steps keep. -/
theorem goAll?_congr {step' : α → ι → Option (Outcome α)} {P : α → Prop} {is : List ι}
    (same : ∀ (a : α) (i : ι), P a → i ∈ is → step a i = step' a i)
    (keep : ∀ (a : α) (i : ι) (next : Outcome α), P a → i ∈ is → step a i = some next → P next.value)
    {o : Outcome α} (ho : P o.value) : o.goAll? step is = o.goAll? step' is := by
  induction is generalizing o with
  | nil => rfl
  | cons i is ih =>
    have hstep : o.goOn? step i = o.goOn? step' i := by
      rw [goOn?, goOn?, same o.value i ho List.mem_cons_self]
    unfold goAll? at ih ⊢
    rw [List.foldlM_cons, List.foldlM_cons, ← hstep]
    cases hm : o.goOn? step i with
    | none => rfl
    | some m =>
      obtain ⟨next, hnext, rfl⟩ := goOn?_eq_some.mp hm
      exact ih (fun a j ha hj => same a j ha (List.mem_cons_of_mem i hj))
        (fun a j next ha hj => keep a j next ha (List.mem_cons_of_mem i hj))
        (keep o.value i next ho List.mem_cons_self hnext)

end TunnelMap.Outcome
