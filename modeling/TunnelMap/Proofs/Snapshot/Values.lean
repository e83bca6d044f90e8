import TunnelMap.Proofs.Json.Open
import TunnelMap.Snapshot.Reader

/-! Values that stand for the fields of nodes and edges. Each reader of a field is sound and complete for a
relation between the values of JSON and what they stand for, so a value stands for one thing at most. Where
a field may be left out, its values together stand for something just if there is one of them or none. -/

namespace TunnelMap

/-! ### Relations -/

namespace Json

/-- A value that names one of those known: the name itself, or an object with nothing but it, over null. -/
def Names {α : Type} (known : List (String × α)) (j : Json) (a : α) : Prop :=
  ∃ name, known.lookup name = some a ∧ (j = .string name ∨ j = .object [(name, .null)])

/-- A value that stands for a string. -/
def Spells (j : Json) (s : String) : Prop := j = .string s

/-- A value that stands for a list of strings. -/
def Lists (j : Json) (ss : List String) : Prop := j = .array (ss.map .string)

/-- A value that stands for a word: a whole number in its range. -/
def Counts (j : Json) (n : UInt32) : Prop := j = .number (.whole n.toNat)

/-- A value that stands for what another relation says, or for nothing. -/
def OrNull {α : Type} (stands : Json → α → Prop) (j : Json) (a : Option α) : Prop :=
  (j = .null ∧ a = none) ∨ ∃ b, stands j b ∧ a = some b

/-- Of given values there is just one, which stands for something, or none. -/
def AtMostOne {α : Type} (stands : Json → α → Prop) (absent : α) (js : List Json) (a : α) : Prop :=
  (js = [] ∧ a = absent) ∨ ∃ j, js = [j] ∧ stands j a

section Relations

variable {α : Type} {stands : Json → α → Prop} {absent a b : α} {j : Json} {js : List Json}

/-- What a reader decides, no value stands for two things. -/
theorem eq_of_stands {parse : Json → Reads α} (hparse : ∀ j a, parse j = .ok a ↔ stands j a)
    (ha : stands j a) (hb : stands j b) : a = b :=
  Except.ok.inj (((hparse j a).mpr ha).symm.trans ((hparse j b).mpr hb))

theorem AtMostOne.eq {parse : Json → Reads α} (hparse : ∀ j a, parse j = .ok a ↔ stands j a)
    (ha : AtMostOne stands absent js a) (hb : AtMostOne stands absent js b) : a = b := by
  rcases ha with ⟨rfl, rfl⟩ | ⟨j, rfl, ha⟩
  · rcases hb with ⟨-, rfl⟩ | ⟨j, hone, -⟩
    · rfl
    · exact absurd hone.symm (List.cons_ne_nil j [])
  · rcases hb with ⟨hnone, -⟩ | ⟨j', hone, hb⟩
    · exact absurd hnone (List.cons_ne_nil j [])
    · exact eq_of_stands hparse ha (List.singleton_inj.mp hone ▸ hb)

theorem AtMostOne.imp {P : Json → Prop} (h : ∀ j, stands j a → P j)
    (ha : AtMostOne stands absent js a) : js = [] ∨ ∃ j, js = [j] ∧ P j :=
  Or.imp And.left (fun ⟨j, hone, hj⟩ => ⟨j, hone, h j hj⟩) ha

/-- In another order there is still one value, or none. -/
theorem AtMostOne.reordered {known names : List String} {fields fields' : Fields}
    (h : Reordered known fields fields') (ha : AtMostOne stands absent (given names fields) a) :
    AtMostOne stands absent (given names fields') a := by
  rcases ha with ⟨hnone, ha⟩ | ⟨j, hone, ha⟩
  · exact .inl ⟨List.perm_nil.mp (hnone ▸ given_perm h.perm.symm), ha⟩
  · exact .inr ⟨j, h.given_eq hone, ha⟩

end Relations

/-! ### Depth

What stands for something is never too deep to be kept. -/

theorem Spells.depth_le {j : Json} {s : String} (h : j.Spells s) : j.depth ≤ OpenRecord.room := by
  subst h
  simp only [depth, Nat.zero_le]

theorem Counts.depth_le {j : Json} {n : UInt32} (h : j.Counts n) : j.depth ≤ OpenRecord.room := by
  subst h
  simp only [depth, Nat.zero_le]

theorem OrNull.depth_le {α : Type} {stands : Json → α → Prop}
    (h : ∀ {j a}, stands j a → j.depth ≤ OpenRecord.room) {j : Json} {a : Option α}
    (ha : OrNull stands j a) : j.depth ≤ OpenRecord.room := by
  rcases ha with ⟨rfl, -⟩ | ⟨b, hb, -⟩
  · simp only [depth, Nat.zero_le]
  · exact h hb

theorem depthItems_map_string (ss : List String) : depthItems (ss.map .string) = 0 := by
  induction ss with
  | nil => simp only [List.map_nil, depthItems]
  | cons s ss ih => simp only [List.map_cons, depthItems, depth, ih, Nat.max_self]

theorem Lists.depth_le {j : Json} {ss : List String} (h : j.Lists ss) : j.depth ≤ OpenRecord.room := by
  subst h
  simp only [depth, depthItems_map_string]
  decide

end Json

/-! ### Readers -/

namespace Draft

theorem readString_ofJson {j : Json} {s : String} : (ofJson j).readString = .ok s ↔ j.Spells s := by
  cases j <;> simp [ofJson, readString, Json.Spells]

theorem variant_eq_ok {α : Type} {known : List (String × α)} {name : String} {a : α} :
    variant known name = .ok a ↔ known.lookup name = some a := by
  unfold variant
  cases known.lookup name <;> simp

theorem readNothing_ofJson {j : Json} {u : Unit} : (ofJson j).readNothing = .ok u ↔ j = .null := by
  cases j <;> simp [ofJson, readNothing]

theorem readVariant_ofJson {α : Type} {known : List (String × α)} {j : Json} {a : α} :
    (ofJson j).readVariant known = .ok a ↔ j.Names known a := by
  have single (name : String) (v : Json) :
      (∃ b, known.lookup name = some b ∧ (fun _ => b) <$> (ofJson v).readNothing = .ok a) ↔
        known.lookup name = some a ∧ v = .null := by
    constructor
    · rintro ⟨b, hb, hnothing⟩
      obtain ⟨u, hu, rfl⟩ := Except.map_eq_ok.mp hnothing
      exact ⟨hb, readNothing_ofJson.mp hu⟩
    · rintro ⟨ha, rfl⟩
      exact ⟨a, ha, rfl⟩
  cases j with
  | string name => simp [ofJson, readVariant, Json.Names, variant_eq_ok]
  | object fields =>
    match fields with
    | [] => simp [ofJson, ofFields, readVariant, Json.Names]
    | [(name, v)] =>
      simp [ofJson, ofFields, readVariant, Json.Names, Except.bind_eq_ok, variant_eq_ok, Except.mapError,
        single]
    | (name, v) :: field :: rest =>
      simp [ofJson, ofFields, readVariant, Json.Names, Except.bind_eq_ok]
  | _ => simp [ofJson, readVariant, Json.Names]

theorem readEdgeKind?_ofJson {j : Json} {kind : Option EdgeKind} :
    readEdgeKind? (ofJson j) = .ok kind ↔ Json.OrNull (Json.Names EdgeKind.names) j kind := by
  by_cases hnull : j = .null
  · subst hnull
    simp [ofJson, readEdgeKind?, Json.OrNull, Json.Names, eq_comm]
  · have hread : readEdgeKind? (ofJson j) =
        some <$> (ofJson j).readVariant EdgeKind.names := by
      cases j with
      | null => exact absurd rfl hnull
      | _ => rfl
    rw [hread, Except.map_eq_ok, Json.OrNull, eq_false hnull, false_and, false_or]
    exact exists_congr fun b => and_congr readVariant_ofJson eq_comm

end Draft

namespace Json

theorem readString_merged {j : Json} {s : String} : j.merged.readString = .ok s ↔ j.Spells s := by
  cases j <;> simp [merged, readString, Spells]

theorem readString?_merged {j : Json} {s : Option String} :
    j.merged.readString? = .ok s ↔ OrNull Spells j s := by
  cases j <;> simp [merged, readString?, readString, OrNull, Spells, eq_comm]

theorem mapM_readString_merged {js : List Json} {ss : List String} :
    (mergedItems js).mapM readString = .ok ss ↔ js = ss.map .string := by
  induction js generalizing ss with
  | nil => cases ss <;> simp [mergedItems, pure, Except.pure]
  | cons j js ih =>
    simp only [mergedItems, List.mapM_cons, Except.bind_eq_ok, readString_merged, ih]
    constructor
    · rintro ⟨s, rfl, rest, rfl, hss⟩
      rw [← Except.ok.inj hss, List.map_cons]
    · intro hjs
      obtain ⟨s, rest, rfl, rfl, rfl⟩ := List.map_eq_cons_iff.mp hjs.symm
      exact ⟨s, rfl, rest, rfl, rfl⟩

theorem readStrings_merged {j : Json} {ss : List String} :
    j.merged.readStrings = .ok ss ↔ j.Lists ss := by
  cases j <;> simp [merged, readStrings, Lists, mapM_readString_merged]

theorem readWord?_merged {j : Json} {n : Option UInt32} :
    j.merged.readWord? = .ok n ↔ OrNull Counts j n := by
  cases j with
  | number number =>
    cases number with
    | whole i =>
      simp only [merged, readWord?, OrNull, Counts, reduceCtorEq, false_and, false_or, number.injEq,
        Number.whole.injEq]
      by_cases h : 0 ≤ i ∧ i.toNat < UInt32.size
      · rw [if_pos h]
        have hword : (UInt32.ofNat i.toNat).toNat = i.toNat := by
          rw [UInt32.toNat_ofNat']
          exact Nat.mod_eq_of_lt h.2
        constructor
        · exact fun hn => ⟨_, by omega, (Except.ok.inj hn).symm⟩
        · rintro ⟨b, rfl, rfl⟩
          rw [Int.toNat_natCast, UInt32.ofNat_toNat]
      · rw [if_neg h]
        refine iff_of_false nofun ?_
        rintro ⟨b, rfl, -⟩
        exact h ⟨Int.natCast_nonneg _, b.toNat_lt⟩
    | float x => simp [merged, readWord?, OrNull, Counts]
  | _ => simp [merged, readWord?, OrNull, Counts, eq_comm]

end Json

end TunnelMap
