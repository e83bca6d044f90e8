import Mathlib.Tactic.SplitIfs
import TunnelMap.Json.Draft

/-! What is read of a value that is whole. Arrays and objects may nest as deep as there is room for, and
no deeper; within that, all of the value is read, and where a name is given to several values of an object,
the last of them counts, at every level. -/

namespace TunnelMap

namespace Json

/-- The values that are given under some names, in the order of the text. -/
def given {α : Type} (names : List String) (fields : List (String × α)) : List α :=
  (fields.filter fun field => names.contains field.1).map Prod.snd

/-- The fields under other names. -/
def others {α : Type} (names : List String) (fields : List (String × α)) : List (String × α) :=
  fields.filter fun field => !names.contains field.1

mutual

/-- How deep the arrays and objects of a value nest. -/
def depth : Json → Nat
  | .array items => depthItems items + 1
  | .object fields => depthFields fields + 1
  | _ => 0

def depthItems : List Json → Nat
  | [] => 0
  | j :: js => max j.depth (depthItems js)

def depthFields : List (String × Json) → Nat
  | [] => 0
  | (_, j) :: fields => max j.depth (depthFields fields)

end

mutual

/-- The same value, where of the values under one name of an object only the last is left. -/
def merged : Json → Json
  | .array items => .array (mergedItems items)
  | .object fields => .object (mergedFields [] fields)
  | j => j

def mergedItems : List Json → List Json
  | [] => []
  | j :: js => j.merged :: mergedItems js

def mergedFields (sofar : Fields) : List (String × Json) → Fields
  | [] => sofar
  | (name, j) :: fields => mergedFields (sofar.insert name j.merged) fields

end

/-! ### Given values -/

section Given

variable {α β : Type} {names : List String} {field : String × α} {fields : List (String × α)}

@[simp] theorem given_nil : given names ([] : List (String × α)) = [] := rfl

theorem given_cons_of_mem (h : field.1 ∈ names) :
    given names (field :: fields) = field.2 :: given names fields := by
  simp [given, h]

theorem given_cons_of_notMem (h : field.1 ∉ names) :
    given names (field :: fields) = given names fields := by
  simp [given, h]

theorem given_cons_ne_nil :
    given names (field :: fields) ≠ [] ↔ field.1 ∈ names ∨ given names fields ≠ [] := by
  by_cases h : field.1 ∈ names
  · simp [given_cons_of_mem h, h]
  · simp [given_cons_of_notMem h, h]

theorem others_cons_of_mem (h : field.1 ∈ names) :
    others names (field :: fields) = others names fields := by
  simp [others, h]

theorem others_cons_of_notMem (h : field.1 ∉ names) :
    others names (field :: fields) = field :: others names fields := by
  simp [others, h]

theorem given_map (f : α → β) :
    given names (fields.map (Prod.map id f)) = (given names fields).map f := by
  simp [given, List.filter_map, Function.comp_def]

theorem given_perm {fields' : List (String × α)} (h : fields.Perm fields') :
    (given names fields).Perm (given names fields') :=
  (h.filter _).map _

end Given

/-! ### Later values -/

namespace Fields

theorem get?_cons (field : String × Json) (fields : Fields) (name : String) :
    get? (field :: fields) name = if field.1 = name then some field.2 else fields.get? name := by
  by_cases h : field.1 = name
  · simp [get?, h]
  · simp [get?, h]

theorem get?_insert (fields : Fields) (name other : String) (j : Json) :
    (fields.insert name j).get? other = if name = other then some j else fields.get? other := by
  induction fields with
  | nil => exact get?_cons (name, j) [] other
  | cons field fields ih =>
    unfold insert
    by_cases hname : field.1 = name
    · rw [if_pos (beq_iff_eq.mpr hname), get?_cons, get?_cons, hname]
      split_ifs <;> rfl
    · rw [if_neg (by simpa using hname), get?_cons, get?_cons, ih]
      split_ifs with hother hsame
      · exact absurd (hother.trans hsame.symm) hname
      · rfl
      · rfl
      · rfl

theorem mem_names_insert (fields : Fields) (name other : String) (j : Json) :
    other ∈ (fields.insert name j).map Prod.fst ↔ other = name ∨ other ∈ fields.map Prod.fst := by
  induction fields with
  | nil => simp [insert]
  | cons field fields ih =>
    unfold insert
    by_cases hname : field.1 = name
    · simp [hname]
    · simp only [beq_iff_eq, hname, if_false, List.map_cons, List.mem_cons, ih]
      exact or_left_comm

theorem nodup_names_insert {fields : Fields} (h : (fields.map Prod.fst).Nodup) (name : String)
    (j : Json) : ((fields.insert name j).map Prod.fst).Nodup := by
  induction fields with
  | nil => exact List.pairwise_singleton _ name
  | cons field fields ih =>
    obtain ⟨hnew, hrest⟩ := List.nodup_cons.mp h
    unfold insert
    by_cases hname : field.1 = name
    · rw [if_pos (beq_iff_eq.mpr hname)]
      exact hname ▸ h
    · rw [if_neg (by simpa using hname), List.map_cons]
      refine List.nodup_cons.mpr ⟨fun hmem => ?_, ih hrest⟩
      rcases (mem_names_insert fields name field.1 j).mp hmem with hsame | hmem
      · exact hname hsame
      · exact hnew hmem

end Fields

/-- Under each name there is then the last value that it was given, or else what was there. -/
theorem get?_mergedFields (sofar : Fields) (fields : List (String × Json)) (name : String) :
    (mergedFields sofar fields).get? name =
      ((given [name] fields).getLast?.map merged).or (sofar.get? name) := by
  induction fields generalizing sofar with
  | nil => rfl
  | cons field fields ih =>
    rw [mergedFields, ih, Fields.get?_insert]
    by_cases h : field.1 = name
    · rw [if_pos h, given_cons_of_mem (by simpa using h), List.getLast?_cons]
      cases (given [name] fields).getLast? with
      | none => rfl
      | some j => rfl
    · rw [if_neg h, given_cons_of_notMem (by simpa using h)]

theorem nodup_names_mergedFields {sofar : Fields} (h : (sofar.map Prod.fst).Nodup)
    (fields : List (String × Json)) : ((mergedFields sofar fields).map Prod.fst).Nodup := by
  induction fields generalizing sofar with
  | nil => exact h
  | cons field fields ih => exact ih (Fields.nodup_names_insert h ..)

theorem mem_names_mergedFields {sofar : Fields} {fields : List (String × Json)} {name : String} :
    name ∈ (mergedFields sofar fields).map Prod.fst ↔
      name ∈ sofar.map Prod.fst ∨ name ∈ fields.map Prod.fst := by
  induction fields generalizing sofar with
  | nil => simp [mergedFields]
  | cons field fields ih =>
    rw [mergedFields, ih, Fields.mem_names_insert, List.map_cons, List.mem_cons, or_assoc, or_left_comm]

end Json

/-! ### Whole values -/

namespace Draft

open Json

mutual

/-- A whole value is read just if there is room for it. -/
theorem toJson_ofJson (room : Nat) : (j : Json) →
    (ofJson j).toJson room = if j.depth ≤ room then .ok j.merged else .error .malformed
  | .null | .bool _ | .number _ | .string _ => (if_pos (Nat.zero_le room)).symm
  | .array items => by
    have hdepth : (Json.array items).depth = depthItems items + 1 := by rw [depth]
    simp only [ofJson, toJson, merged]
    by_cases hroom : room = 0
    · rw [if_pos hroom, if_neg (by omega)]
    · rw [if_neg hroom, toItems_ofItems (room - 1) items]
      by_cases h : depthItems items ≤ room - 1
      · rw [if_pos h, if_pos (by omega)]
        rfl
      · rw [if_neg h, if_neg (by omega)]
        rfl
  | .object fields => by
    have hdepth : (Json.object fields).depth = depthFields fields + 1 := by rw [depth]
    simp only [ofJson, toJson, merged]
    by_cases hroom : room = 0
    · rw [if_pos hroom, if_neg (by omega)]
    · rw [if_neg hroom, toFields_ofFields (room - 1) [] fields]
      by_cases h : depthFields fields ≤ room - 1
      · rw [if_pos h, if_pos (by omega)]
        rfl
      · rw [if_neg h, if_neg (by omega)]
        rfl

theorem toItems_ofItems (room : Nat) : (js : List Json) →
    toItems room (ofItems js) =
      if depthItems js ≤ room then .ok (mergedItems js) else .error .malformed
  | [] => (if_pos (Nat.zero_le room)).symm
  | j :: js => by
    have hdepth : depthItems (j :: js) = max j.depth (depthItems js) := by rw [depthItems]
    simp only [ofItems, toItems, mergedItems]
    rw [toJson_ofJson room j]
    by_cases hj : j.depth ≤ room
    · rw [if_pos hj, toItems_ofItems room js]
      by_cases hjs : depthItems js ≤ room
      · rw [if_pos hjs, if_pos (by omega)]
        rfl
      · rw [if_neg hjs, if_neg (by omega)]
        rfl
    · rw [if_neg hj, if_neg (by omega)]
      rfl

theorem toFields_ofFields (room : Nat) (sofar : Fields) : (fields : List (String × Json)) →
    toFields room sofar (ofFields fields) =
      if depthFields fields ≤ room then .ok (mergedFields sofar fields) else .error .malformed
  | [] => (if_pos (Nat.zero_le room)).symm
  | (name, j) :: fields => by
    have hdepth : depthFields ((name, j) :: fields) = max j.depth (depthFields fields) := by
      rw [depthFields]
    simp only [ofFields, toFields, mergedFields]
    rw [toJson_ofJson room j]
    by_cases hj : j.depth ≤ room
    · rw [if_pos hj]
      change toFields room (sofar.insert name j.merged) (ofFields fields) = _
      rw [toFields_ofFields room _ fields]
      by_cases hfields : depthFields fields ≤ room
      · rw [if_pos hfields, if_pos (by omega)]
      · rw [if_neg hfields, if_neg (by omega)]
    · rw [if_neg hj, if_neg (by omega)]
      rfl

end

end Draft

end TunnelMap
